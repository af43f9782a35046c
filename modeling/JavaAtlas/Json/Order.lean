import JavaAtlas.Json.Shape
import JavaAtlas.Sorting.Adaptive

/-! Equality and order of values. Numbers of all kinds, truth values among them, are compared by
what they are worth; texts and lists have an order among themselves, and nothing else has one. What
is not a number is equal to nothing, but it can be found again: where values are kept, as keys and
as items, it matches itself. -/
namespace JavaAtlas.Json

def whole? : Json → Option Int
  | .bool value => some (if value then 1 else 0)
  | .int value => some value
  | _ => none

def numberOrder? (first second : Json) : Option Ordering :=
  match first, second with
  | .float first, .float second => first.order? second
  | .float first, other => other.whole?.bind fun whole => (first.orderInt? whole).map .swap
  | other, .float second => other.whole?.bind second.orderInt?
  | first, second =>
    first.whole?.bind fun whole => second.whole?.map fun other => compare whole other

def isNumber : Json → Bool
  | .float _ => true
  | other => other.whole?.isSome

def bothUndefined : Json → Json → Bool
  | .float .notANumber, .float .notANumber => true
  | _, _ => false

mutual
/-- Whether two values are equal. The fields of an object may come in any order. -/
def same : Json → Json → Bool
  | .null, .null => true
  | .str first, .str second => first == second
  | .arr first, .arr second => sameItems first second
  | .obj first, .obj second => first.length == second.length && sameFields first second
  | first, second => numberOrder? first second == some .eq

def sameItems : List Json → List Json → Bool
  | [], [] => true
  | first :: firstRest, second :: secondRest =>
    (bothUndefined first second || same first second) && sameItems firstRest secondRest
  | _, _ => false

def sameFields : List (String × Json) → List (String × Json) → Bool
  | [], _ => true
  | (name,value) :: rest, fields =>
    (match fields.lookup name with
      | some other => bothUndefined value other || same value other
      | none => false) && sameFields rest fields
end

/-- Whether a value is found where the other one is kept. -/
def isMatch (first second : Json) : Bool := bothUndefined first second || first.same second

mutual
def isBefore : Json → Json → Except Mismatch Bool
  | .str first, .str second => .ok (decide (first < second))
  | .arr first, .arr second => itemsBefore first second
  | first, second =>
    if first.isNumber && second.isNumber then .ok (numberOrder? first second == some .lt)
    else .error (.notOrdered first second)

/-- The first items that do not match decide, or the shorter list comes first. -/
def itemsBefore : List Json → List Json → Except Mismatch Bool
  | [], second => .ok (!second.isEmpty)
  | _ :: _, [] => .ok false
  | first :: firstRest, second :: secondRest =>
    if isMatch first second then itemsBefore firstRest secondRest else isBefore first second
end

def sorted (values : List Json) : Except Mismatch (List Json) := Sorting.sorted isBefore values

def isAmong (values : List Json) (value : Json) : Bool := values.any (isMatch value)

def holds (c : Char) : Json → Except Mismatch Bool
  | .str text => .ok (text.toList.contains c)
  | .arr items => .ok (isAmong items (.str (String.singleton c)))
  | .obj fields => .ok (fields.any fun field => field.1 == String.singleton c)
  | other => .error (.notSearchable other)

end JavaAtlas.Json
