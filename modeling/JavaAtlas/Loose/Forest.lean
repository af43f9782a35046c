import JavaAtlas.Loose.Model
import JavaAtlas.Model.Forest

/-! The inheritance forest of a loose model. A link that is not the name of a unit leads
nowhere; one that cannot be a name, or links that have no order, make it fail. -/
namespace JavaAtlas.Loose

def grow (units : OrderedMap String CompilationUnit) (available : List String)
    (unit : CompilationUnit) : Except Json.Mismatch (ClassTree CompilationUnit) := do
  let names ← Json.sorted unit.subclasses
  let children ← names.filterMapM fun name => do
    match ← name.asKey with
    | .str name =>
      if _ : name ∈ available then
        match units.get? name with
        | some child => return some (← grow units (available.erase name) child)
        | none => return none
      else return none
    | _ => return none
  return .node unit children
termination_by available.length
decreasing_by exact ClassTree.length_erase_lt ‹_ ∈ available›

namespace Model

def isRoot (model : Model) (unit : CompilationUnit) : Except Json.Mismatch Bool :=
  match unit.superclass with
  | .null => .ok true
  | name => (model.knows name).map (!·)

def roots (model : Model) : Except Json.Mismatch (List CompilationUnit) :=
  model.units.values.filterM model.isRoot

def forest (model : Model) : Except Json.Mismatch (List (ClassTree CompilationUnit)) := do
  (Text.sortedBy CompilationUnit.qualifiedName (← model.roots)).mapM fun root =>
    grow model.units (model.units.keys.erase root.qualifiedName) root

end Model

end JavaAtlas.Loose
