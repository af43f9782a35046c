import JavaAtlas.Json.Basic
import JavaAtlas.Number.Shortest
import JavaAtlas.Text.Integer
import JavaAtlas.Text.Quoted

/-! Values in running text, as answers and reports quote them: a text stands for itself, and
inside other values it is quoted. -/
namespace JavaAtlas.Json

mutual
def literal : Json → List Char
  | .null => "None".toList
  | .bool true => "True".toList
  | .bool false => "False".toList
  | .int value => Text.ofInt value
  | .float value => value.text "nan" "inf"
  | .str value => Text.quoted value.toList
  | .arr items => '[' :: ([',',' '].intercalate (literalItems items) ++ [']'])
  | .obj fields => '{' :: ([',',' '].intercalate (literalFields fields) ++ ['}'])

def literalItems : List Json → List (List Char)
  | [] => []
  | item :: rest => literal item :: literalItems rest

def literalFields : List (String × Json) → List (List Char)
  | [] => []
  | (name,value) :: rest =>
    (Text.quoted name.toList ++ [':',' '] ++ literal value) :: literalFields rest
end

def text : Json → String
  | .str value => value
  | other => String.ofList other.literal

def givenText? (value : Json) : Option String :=
  if value.isGiven then some value.text else none

end JavaAtlas.Json
