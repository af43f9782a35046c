import JavaAtlas.Json.Basic
import JavaAtlas.Text.Quoted
import JavaAtlas.Text.Words

/-! Reading values of an expected shape. What is asked of a value decides how it fails: a key that
an object lacks, or a value of another kind than the one asked for. -/
namespace JavaAtlas.Json

def kind : Json → String
  | .null => "NoneType"
  | .bool _ => "bool"
  | .int _ => "int"
  | .float _ => "float"
  | .str _ => "str"
  | .arr _ => "list"
  | .obj _ => "dict"

inductive Mismatch where
  | missingKey (key : String)
  | notKeyed (value : Json)
  | notIterable (value : Json)
  | notSearchable (value : Json)
  | notCounted (value : Json)
  | notMapping (value : Json)
  | notText (value : Json)
  | notFlag (value : Json)
  | notPath (value : Json)
  | notClassName (value : Json)
  | notLimit (value : Json)
  | notKey (value : Json)
  | notSliced (value : Json)
  | notOrdered (first second : Json)
  | lacks (value : Json) (asked : String)
  | notRecord (record : String) (value : Json)
  | unknownField (record name : String)
  | repeatedField (record name : String)
  | missingFields (record : String) (names : List String)

def enumerated (names : List String) : String :=
  let quoted := names.map fun name => String.ofList (Text.quoted name.toList)
  match quoted.reverse with
  | [] => ""
  | [only] => only
  | [second,first] => first ++ " and " ++ second
  | last :: others => Text.join ", " others.reverse ++ ", and " ++ last

def Mismatch.message : Mismatch → String
  | .missingKey key => String.ofList (Text.quoted key.toList)
  | .notKeyed (.str _) => "string indices must be integers, not 'str'"
  | .notKeyed (.arr _) => "list indices must be integers or slices, not str"
  | .notKeyed value => "'" ++ value.kind ++ "' object is not subscriptable"
  | .notIterable value => "'" ++ value.kind ++ "' object is not iterable"
  | .notSearchable value => "argument of type '" ++ value.kind ++ "' is not iterable"
  | .notCounted value => "object of type '" ++ value.kind ++ "' has no len()"
  | .notMapping value => "'" ++ value.kind ++ "' object is not a mapping"
  | .notText value => "a text is expected, not " ++ value.kind
  | .notFlag value => "a flag is expected, not " ++ value.kind
  | .notPath value => "expected str, bytes or os.PathLike object, not " ++ value.kind
  | .notClassName value =>
    "decoding to str: need a bytes-like object, " ++ value.kind ++ " found"
  | .notLimit _ => "slice indices must be integers or None or have an __index__ method"
  | .notKey value => "unhashable type: '" ++ value.kind ++ "'"
  | .notSliced (.obj _) => "unhashable type: 'slice'"
  | .notSliced value => "'" ++ value.kind ++ "' object is not subscriptable"
  | .notOrdered first second =>
    "'<' not supported between instances of '" ++ first.kind ++ "' and '" ++ second.kind ++ "'"
  | .lacks value asked => "'" ++ value.kind ++ "' object has no attribute '" ++ asked ++ "'"
  | .notRecord record value =>
    "jcodescan_mcp.parser.symbols." ++ record ++ "() argument after ** must be a mapping, not " ++
      value.kind
  | .unknownField record name =>
    record ++ ".__init__() got an unexpected keyword argument '" ++ name ++ "'"
  | .repeatedField record name =>
    record ++ ".__init__() got multiple values for argument '" ++ name ++ "'"
  | .missingFields record names =>
    record ++ ".__init__() missing " ++ String.ofList (Nat.toDigits 10 names.length) ++
      " required positional argument" ++ (if names.length == 1 then "" else "s") ++ ": " ++
      enumerated names

def need (value : Json) (key : String) : Except Mismatch Json :=
  match value with
  | .obj fields =>
    match fields.lookup key with
    | some found => .ok found
    | none => .error (.missingKey key)
  | other => .error (.notKeyed other)

def getOr (value : Json) (key : String) (default : Json) : Except Mismatch Json :=
  match value with
  | .obj fields => .ok ((fields.lookup key).getD default)
  | other => .error (.lacks other "get")

/-- The members that a value is iterated over: items, characters or keys. -/
def members : Json → Except Mismatch (List Json)
  | .arr items => .ok items
  | .str text => .ok (text.toList.map fun c => .str (String.ofList [c]))
  | .obj fields => .ok (fields.map fun field => .str field.1)
  | other => .error (.notIterable other)

def count : Json → Except Mismatch Nat
  | .arr items => .ok items.length
  | .str text => .ok text.length
  | .obj fields => .ok fields.length
  | other => .error (.notCounted other)

def mapping : Json → Except Mismatch (List (String × Json))
  | .obj fields => .ok fields
  | other => .error (.notMapping other)

def items : Json → Except Mismatch (List (String × Json))
  | .obj fields => .ok fields
  | other => .error (.lacks other "items")

def asText : Json → Except Mismatch String
  | .str text => .ok text
  | other => .error (.notText other)

def asTextOrNull : Json → Except Mismatch (Option String)
  | .null => .ok none
  | other => other.asText.map some

def asFlag : Json → Except Mismatch Bool
  | .bool flag => .ok flag
  | other => .error (.notFlag other)

def textFor (asked : String) : Json → Except Mismatch String
  | .str text => .ok text
  | other => .error (.lacks other asked)

/-- Whether a value can be a key: a list or an object cannot. -/
def asKey : Json → Except Mismatch Json
  | .arr items => .error (.notKey (.arr items))
  | .obj fields => .error (.notKey (.obj fields))
  | other => .ok other

def clip (limit : Nat) : Json → Except Mismatch Json
  | .str text => .ok (.str (Text.clip limit text))
  | .arr items => .ok (.arr (items.take limit))
  | other => .error (.notSliced other)

def asTexts (value : Json) : Except Mismatch (List String) := do
  (← value.members).mapM asText

def asLists (value : Json) : Except Mismatch (OrderedMap String (List Json)) := do
  return .ofList (← (← value.items).mapM fun field => do return (field.1,← field.2.members))

def asTextLists (value : Json) : Except Mismatch (OrderedMap String (List String)) := do
  return .ofList (← (← value.items).mapM fun field => do return (field.1,← field.2.asTexts))

end JavaAtlas.Json
