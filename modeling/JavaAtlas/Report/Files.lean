import JavaAtlas.Report.Page
import JavaAtlas.World

/-! Reports as files: one for endpoints, one for the hierarchy, one for enums if there are any,
and a page for every unit in a directory of their own. -/
namespace JavaAtlas.Report

def files (model : Model) : List (String × String) :=
  [("api-summary.md",api model),("class-hierarchy.md",hierarchy model)] ++
    ((enums? model).map fun text => ("enum-summary.md",text)).toList ++
    model.units.values.map fun unit =>
      ("method-details/" ++ pageFile unit,methodDetails model unit)

def writeAll (model : Model) (output : Path) : Action (List Path) := do
  Action.makeDirectories (output.child "method-details")
  (files model).mapM fun file => do
    let path := output.child file.1
    Action.write path file.2
    return path

end JavaAtlas.Report
