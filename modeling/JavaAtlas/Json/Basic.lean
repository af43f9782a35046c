import JavaAtlas.Number.Binary64
import JavaAtlas.OrderedMap

/-! Values of the stored and exchanged documents. The fields of an object keep their order. -/
namespace JavaAtlas

inductive Json where
  | null
  | bool (value : Bool)
  | int (value : Int)
  | float (value : Binary64)
  | str (value : String)
  | arr (items : List Json)
  | obj (fields : List (String × Json))
  deriving Inhabited

namespace Json

def ofNat (n : Nat) : Json := .int n

def ofOption (text : Option String) : Json :=
  match text with
  | none => .null
  | some text => .str text

def strings (texts : List String) : Json := .arr (texts.map .str)

def stringLists (map : OrderedMap String (List String)) : Json :=
  .obj (map.entries.map fun entry => (entry.1,strings entry.2))

def field? (value : Json) (name : String) : Option Json :=
  match value with
  | .obj fields => fields.lookup name
  | _ => none

/-- Whether the value counts as given: not null, false, zero or empty. -/
def isGiven : Json → Bool
  | .null => false
  | .bool value => value
  | .int value => value != 0
  | .float (.finite _ significand _) => significand != 0
  | .float _ => true
  | .str value => !value.isEmpty
  | .arr items => !items.isEmpty
  | .obj fields => !fields.isEmpty

end Json

end JavaAtlas
