import JavaAtlas.Model.Basic
import JavaAtlas.Text.Order

/-! The inheritance forest. It grows from the roots along subclass links; on its way down no name
comes twice, so it is finite whatever the links are, and a cycle that no root leads to is left
out. -/
namespace JavaAtlas

inductive ClassTree (α : Type) where
  | node (unit : α) (children : List (ClassTree α))

namespace ClassTree
variable {α : Type}

def unit : ClassTree α → α
  | .node unit _ => unit

def children : ClassTree α → List (ClassTree α)
  | .node _ children => children

theorem length_erase_lt {name : String} {names : List String} (member : name ∈ names) :
    (names.erase name).length < names.length := by
  rw [List.length_erase_of_mem member]
  have := List.length_pos_of_mem member
  omega

/-- The tree below a unit, with children in the order of their names. The `available` names are
those of units that do not lie on the way from the root. -/
def grow (units : OrderedMap String CompilationUnit) (available : List String)
    (unit : CompilationUnit) : ClassTree CompilationUnit :=
  .node unit ((Text.sorted unit.subclasses).filterMap fun name =>
    if _ : name ∈ available then
      (units.get? name).map fun child => grow units (available.erase name) child
    else none)
termination_by available.length
decreasing_by exact length_erase_lt ‹name ∈ available›

mutual
def flatten (depth : Int) : ClassTree α → List (α × Int)
  | .node unit children => (unit,depth) :: flattenAll (depth + 1) children

def flattenAll (depth : Int) : List (ClassTree α) → List (α × Int)
  | [] => []
  | tree :: rest => flatten depth tree ++ flattenAll depth rest
end

end ClassTree

namespace Model

def forest (model : Model) : List (ClassTree CompilationUnit) :=
  (Text.sortedBy CompilationUnit.qualifiedName model.roots).map fun root =>
    .grow model.units (model.units.keys.erase root.qualifiedName) root

end Model

end JavaAtlas
