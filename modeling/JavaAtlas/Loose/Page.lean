import JavaAtlas.Loose.Forest
import JavaAtlas.Report.Page

/-! The Markdown reports of a loose model. -/
namespace JavaAtlas.Loose

def distinct (values : List Json) : List Json :=
  values.foldl (fun kept value => if Json.isAmong kept value then kept else kept ++ [value]) []

def classGroups (endpoints : List Endpoint) : Except Json.Mismatch Report.ClassGroups := do
  let names ← Json.sorted (distinct (endpoints.map Endpoint.className))
  return names.map fun name =>
    (name.text,(endpoints.filter fun endpoint => endpoint.className.isMatch name).map Endpoint.shown)

def packageGroups (endpoints : List Endpoint) :
    Except Json.Mismatch (List (String × Report.ClassGroups)) := do
  for endpoint in endpoints do
    discard endpoint.package.asKey
    discard endpoint.className.asKey
  (← Json.sorted (distinct (endpoints.map Endpoint.package))).mapM fun package => do
    return (package.text,
      ← classGroups (endpoints.filter fun endpoint => endpoint.package.isMatch package))

def pageFile (unit : CompilationUnit) : Except Json.Mismatch String := do
  discard (unit.package.textFor "replace")
  return Report.pageFile (unit.shownWith [] [])

def indicator (unit : CompilationUnit) : String := Report.indicator (unit.shownWith [] [])

namespace Model

def api (model : Model) : Except Json.Mismatch String := do
  return Report.apiPage (← packageGroups model.endpoints)

def shownPackage (model : Model) (package : Json × List Json) :
    Except Json.Mismatch (String × List JavaAtlas.CompilationUnit) := do
  let units ← (← Json.sorted package.2).filterMapM fun name =>
    match model.units.get? (qualify package.1.text name.text) with
    | some unit => some <$> unit.inPackage
    | none => return none
  return (package.1.text,units)

def hierarchy (model : Model) : Except Json.Mismatch String := do
  let keys ← Json.sorted (model.packages.map Prod.fst)
  let packages ← (keys.filterMap model.package?).mapM model.shownPackage
  let tree ← (ClassTree.flattenAll 0 (← model.forest)).mapM fun entry => do
    return (← entry.1.inTree,entry.2)
  return Report.hierarchyPage packages tree

def enums? (model : Model) : Option String :=
  Report.enumPage? (model.enums.mapValues fun _ constants => constants.map Json.text)

def methodDetails (model : Model) (unit : CompilationUnit) : Except Json.Mismatch String := do
  return Report.unitPage (← unit.shown) ((model.endpointsOf unit).map Endpoint.shown)

end Model

end JavaAtlas.Loose
