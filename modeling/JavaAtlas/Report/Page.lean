import JavaAtlas.Model.Forest
import JavaAtlas.Report.Javadoc

/-! The Markdown reports of a model. Each is a page made of what it shows, so that it can be told
apart from where that comes from. -/
namespace JavaAtlas.Report

/-- A page made of its entries, each on a line of its own, or on several if what it shows has line
breaks. -/
def page (lines : List String) : String := Text.join "\n" lines ++ "\n"

/-- One row of an endpoint table; a media type that is missing leaves its cell empty. -/
def endpointRow (endpoint : Endpoint) : String :=
  "| " ++ endpoint.methodName ++ " | " ++ endpoint.path ++ " | " ++ endpoint.httpMethod ++ " | " ++
    endpoint.consumes.getD "" ++ " | " ++ endpoint.produces.getD "" ++ " |"

def endpointTable (endpoints : List Endpoint) : List String :=
  ["| Method | Path | HTTP Method | Consumes | Produces |",
    "|--------|------|------------|----------|----------|"] ++ endpoints.map endpointRow

def distinctSorted (texts : List String) : List String := Text.sorted texts.eraseDups

abbrev ClassGroups := List (String × List Endpoint)

def classSection (group : String × List Endpoint) : List String :=
  ["### Class: " ++ group.1,""] ++ endpointTable group.2 ++ [""]

def packageSection (group : String × ClassGroups) : List String :=
  ["## Package: " ++ group.1,""] ++ group.2.flatMap classSection

def apiPage (groups : List (String × ClassGroups)) : String :=
  page (["# API Endpoints Summary",""] ++ groups.flatMap packageSection)

def classGroups (endpoints : List Endpoint) : ClassGroups :=
  (distinctSorted (endpoints.map Endpoint.className)).map fun name =>
    (name,endpoints.filter fun endpoint => endpoint.className == name)

def packageGroups (endpoints : List Endpoint) : List (String × ClassGroups) :=
  (distinctSorted (endpoints.map Endpoint.package)).map fun package =>
    (package,classGroups (endpoints.filter fun endpoint => endpoint.package == package))

def api (model : Model) : String := apiPage (packageGroups model.endpoints)

def indicator (unit : CompilationUnit) : String :=
  if unit.isInterface then "[Interface] "
  else if unit.isAbstract then "[Abstract] "
  else if unit.isRestResource then "[REST] "
  else ""

/-- The superclass worth naming: neither missing nor the implicit one. -/
def namedSuperclass (unit : CompilationUnit) : Option String :=
  unit.superclass.filter fun name => !name.isEmpty && name != "java.lang.Object"

def implementsClause (unit : CompilationUnit) : String :=
  if unit.interfaces.isEmpty then ""
  else " implements " ++ Text.join ", " (unit.interfaces.map simpleName)

def packageEntry (unit : CompilationUnit) : String :=
  "- " ++ indicator unit ++ unit.name ++
    (namedSuperclass unit).elim "" (fun name => " extends " ++ simpleName name) ++
    implementsClause unit

def packageSummary (package : String × List CompilationUnit) : List String :=
  ["### " ++ package.1,""] ++ package.2.map packageEntry ++ [""]

def treeEntry (entry : CompilationUnit × Int) : String :=
  String.ofList (List.replicate (2 * entry.2.toNat) ' ') ++ "- " ++ indicator entry.1 ++
    entry.1.name ++ implementsClause entry.1

def hierarchyPage (packages : List (String × List CompilationUnit))
    (tree : List (CompilationUnit × Int)) : String :=
  page (["# Class Hierarchy","","## Package Summary",""] ++ packages.flatMap packageSummary ++
    ["## Inheritance Tree",""] ++ tree.map treeEntry)

def unitsOf (model : Model) (package : String) : List CompilationUnit :=
  (Text.sorted ((model.packages.get? package).getD [])).filterMap fun name =>
    model.units.get? (qualify package name)

def hierarchy (model : Model) : String :=
  hierarchyPage
    ((Text.sorted model.packages.keys).map fun package => (package,unitsOf model package))
    (ClassTree.flattenAll 0 model.forest)

def enumSection (name : String) (constants : List String) : List String :=
  ["## " ++ simpleName name,"",
    "Package: `" ++ String.ofList (Text.beforeLast '.' name.toList) ++ "`","","Values:",""] ++
    constants.map (fun constant => "- `" ++ constant ++ "`") ++ [""]

def enumPage? (enums : Enums) : Option String :=
  if enums.isEmpty then none
  else
    some (page (["# Enum Summary",""] ++
      (Text.sorted enums.keys).flatMap fun name => enumSection name ((enums.get? name).getD [])))

def enums? (model : Model) : Option String := enumPage? model.enums

def restSection (unit : CompilationUnit) (endpoints : List Endpoint) : List String :=
  if unit.isRestResource then
    ["**This is a REST Resource**",""] ++
      if endpoints.isEmpty then []
      else ["## REST Endpoints",""] ++ endpointTable endpoints ++ [""]
  else []

def methodSection (method : Method) : List String :=
  ["### `" ++ method.signature ++ "`",""] ++
    (if method.summary.isEmpty then [] else ["_" ++ method.summary ++ "_",""]) ++
    (if method.javadoc.isEmpty then []
      else ["**Documentation:**","",javadoc method.javadoc,""]) ++
    (if method.annotations.isEmpty then []
      else ["**Annotations:**",""] ++
        method.annotations.map (fun mark => "- `" ++ mark.text ++ "`") ++ [""])

def unitPage (unit : CompilationUnit) (endpoints : List Endpoint) : String :=
  page (["# Methods for " ++ unit.name,"","Package: `" ++ unit.package ++ "`",""] ++
    (namedSuperclass unit).elim [] (fun name => ["Extends: `" ++ name ++ "`",""]) ++
    (if unit.interfaces.isEmpty then []
      else ["Implements: " ++
        Text.join ", " (unit.interfaces.map fun name => "`" ++ name ++ "`"),""]) ++
    restSection unit endpoints ++
    ["## Method Details",""] ++
    unit.methods.flatMap methodSection)

def methodDetails (model : Model) (unit : CompilationUnit) : String :=
  unitPage unit (model.endpointsOf unit)

def pageFile (unit : CompilationUnit) : String :=
  String.ofList (unit.package.toList.map fun c => if c == '.' then '_' else c) ++ "_" ++
    unit.name ++ ".md"

end JavaAtlas.Report
