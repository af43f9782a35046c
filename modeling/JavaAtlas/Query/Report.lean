import JavaAtlas.Loose.Page
import JavaAtlas.Query.Hierarchy

/-! Reports of a stored analysis, rendered on request. -/
namespace JavaAtlas.Query

inductive ReportKind where
  | api
  | hierarchy
  | enums
  | methods
  deriving DecidableEq, Repr

namespace ReportKind

def all : List ReportKind := [.api,.hierarchy,.enums,.methods]

def name : ReportKind → String
  | .api => "api"
  | .hierarchy => "hierarchy"
  | .enums => "enums"
  | .methods => "methods"

def ofName? (name : String) : Option ReportKind := all.find? fun kind => kind.name == name

end ReportKind

def emptyEnumReport : String := "# Enum Summary\n\nNo enums found.\n"

def markdownAnswer (label : String) (kind : ReportKind) (markdown : String) : Json :=
  .obj [("repo",.str label),("report",.str kind.name),("markdown",.str markdown)]

def noClassName : Json := refusal "class_name is required for the methods report"

def unclearClass (className : Json) (names : List String) : Json :=
  .obj [("error",.str ("Class not found or ambiguous: " ++ className.text)),
    ("candidates",candidatesJson names)]

def unitsNamed (model : Model) (className : Json) :
    Except Json.Mismatch (List CompilationUnit) := do
  match ← className.asKey with
  | .str name => return model.find name
  | _ => return []

def pageAnswer (className : Json) (label : String) (model : Model) :
    Except Json.Mismatch Json := do
  if className.isGiven then
    match ← unitsNamed model className with
    | [unit] => return markdownAnswer label .methods (Report.methodDetails model unit)
    | units => return unclearClass className (units.map CompilationUnit.qualifiedName)
  else return noClassName

def reportAnswer (kind : ReportKind) (className : Json) (label : String) (model : Model) :
    Except Json.Mismatch Json :=
  match kind with
  | .api => .ok (markdownAnswer label kind (Report.api model))
  | .hierarchy => .ok (markdownAnswer label kind (Report.hierarchy model))
  | .enums => .ok (markdownAnswer label kind ((Report.enums? model).getD emptyEnumReport))
  | .methods => pageAnswer className label model

/-- The page of the one class of a loose model that has the name. -/
def loosePageAnswer (className : Json) (label : String) (model : Loose.Model) :
    Except Json.Mismatch Json := do
  if className.isGiven then
    match ← model.find className with
    | [unit] => return markdownAnswer label .methods (← model.methodDetails unit)
    | units => return unclearClass className (units.map Loose.CompilationUnit.qualifiedName)
  else return noClassName

def looseReportAnswer (kind : ReportKind) (className : Json) (label : String)
    (model : Loose.Model) : Except Json.Mismatch Json := do
  match kind with
  | .api => return markdownAnswer label kind (← model.api)
  | .hierarchy => return markdownAnswer label kind (← model.hierarchy)
  | .enums => return markdownAnswer label kind (model.enums?.getD emptyEnumReport)
  | .methods => loosePageAnswer className label model

def documentReport (kind : ReportKind) (className : Json) (label : String) (document : Json) :
    Except Json.Mismatch Json := do
  match Model.ofJson document with
  | .ok model => reportAnswer kind className label model
  | .error _ => looseReportAnswer kind className label (← Loose.Model.ofJson document)

def report (storagePath : Option String) (repo kindName className : Json) : Action Json :=
  match ReportKind.all.find? fun kind => kindName.same (.str kind.name) with
  | none =>
    return refusal ("Unknown report: " ++ kindName.text ++ ". Expected one of " ++
      Text.join ", " (ReportKind.all.map ReportKind.name))
  | some kind => ask storagePath repo (documentReport kind className)

end JavaAtlas.Query
