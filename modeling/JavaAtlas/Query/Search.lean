import JavaAtlas.Discovery
import JavaAtlas.Loose.Model
import JavaAtlas.Query.Basic

/-! Search among endpoints and enums. Endpoints are weighed by where the words of the query occur
in them, without regard to case. -/
namespace JavaAtlas.Query

def wholePoints (exact part : Nat) (query text : List Char) : Nat :=
  if query == text then exact else if Text.occursIn query text then part else 0

def wordPoints (each : Nat) (words : List (List Char)) (text : List Char) : Nat :=
  each * (words.filter fun word => Text.occursIn word text).length

def score (query : List Char) (words : List (List Char)) (endpoint : Endpoint) : Nat :=
  let path := Text.lower endpoint.path.toList
  let method := Text.lower endpoint.methodName.toList
  let media := Text.lower
    (endpoint.consumes.getD "" ++ " " ++ endpoint.produces.getD "").toList
  wholePoints 20 10 query path + wordPoints 5 words path +
    wholePoints 15 8 query method + wordPoints 3 words method +
    wordPoints 2 words (Text.lower endpoint.qualifiedClass.toList) + wordPoints 1 words media

/-- The points of an endpoint for a query. An empty query fits everything alike. -/
def points (query : String) (endpoint : Endpoint) : Nat :=
  let lowered := Text.trim (Text.lower query.toList)
  if lowered.isEmpty then 1 else score lowered (Text.words lowered).eraseDups endpoint

def scored (query : String) (verb : Option String) (endpoints : List Endpoint) :
    List (Nat × Endpoint) :=
  (endpoints.filter fun endpoint => verb.all (· == endpoint.httpMethod)).filterMap fun endpoint =>
    if points query endpoint == 0 then none else some (points query endpoint,endpoint)

def ranked {α : Type} (found : List (Nat × α)) : List (Nat × α) :=
  found.mergeSort fun first second => decide (second.1 ≤ first.1)

/-- The first results up to a limit, if there is one. -/
def limited {α : Type} (limit : Option Int) (items : List α) : List α :=
  match limit with
  | some limit => Discovery.takeUpTo limit items
  | none => items

def search (query : String) (verb : Option String) (limit : Option Int)
    (endpoints : List Endpoint) : List (Nat × Endpoint) :=
  limited limit (ranked (scored query verb endpoints))

def loosePoints (query : String) (endpoint : Loose.Endpoint) : Except Json.Mismatch Nat := do
  if (Text.trim (Text.lower query.toList)).isEmpty then return points query endpoint.shown
  else return points query (← endpoint.searched)

def looseScored (query : String) (verb : Option String) (endpoints : List Loose.Endpoint) :
    Except Json.Mismatch (List (Nat × Loose.Endpoint)) :=
  (endpoints.filter fun endpoint =>
    verb.all fun verb => endpoint.httpMethod.same (.str verb)).filterMapM fun endpoint => do
      let found ← loosePoints query endpoint
      return if found == 0 then none else some (found,endpoint)

def resultJson (result : Nat × Endpoint) : Json :=
  .obj [("http_method",.str result.2.httpMethod),("path",.str result.2.path),
    ("class",.str result.2.qualifiedClass),("method",.str result.2.methodName),
    ("consumes",.ofOption result.2.consumes),("produces",.ofOption result.2.produces),
    ("score",.ofNat result.1)]

def looseResultJson (result : Nat × Loose.Endpoint) : Json :=
  .obj [("http_method",result.2.httpMethod),("path",result.2.path),
    ("class",.str result.2.qualifiedClass),("method",result.2.methodName),
    ("consumes",result.2.consumes),("produces",result.2.produces),("score",.ofNat result.1)]

def verbOf (httpMethod : Json) : Except Json.Mismatch (Option String) := do
  if httpMethod.isGiven then
    return some (String.ofList (Text.upper (← httpMethod.textFor "upper").toList))
  else return none

/-- A limit on results: a whole number, or null for none. -/
def limitOf : Json → Except Json.Mismatch (Option Int)
  | .null => .ok none
  | other =>
    match other.whole? with
    | some limit => .ok (some limit)
    | none => .error (.notLimit other)

structure SearchRequest where
  repo : Json
  query : Json := .str ""
  httpMethod : Json := .null
  limit : Json := .int 50

def searchAnswer (request : SearchRequest) (label : String) (document : Json) :
    Except Json.Mismatch Json := do
  let query ← request.query.textFor "lower"
  let verb ← verbOf request.httpMethod
  let results ←
    match Model.ofJson document with
    | .ok model =>
      pure ((search query verb (← limitOf request.limit) model.endpoints).map resultJson)
    | .error _ => do
      let found ← looseScored query verb (← Loose.Model.ofJson document).endpoints
      pure ((limited (← limitOf request.limit) (ranked found)).map looseResultJson)
  return .obj [("repo",.str label),("query",.str query),("result_count",.ofNat results.length),
    ("results",.arr results)]

def searchEndpoints (storagePath : Option String) (request : SearchRequest) : Action Json :=
  ask storagePath request.repo (searchAnswer request)

def enumsAnswer (query : Json) (label : String) (document : Json) :
    Except Json.Mismatch Json := do
  let model ← Loose.Model.ofJson document
  let wanted := Text.lower (← query.textFor "lower").toList
  let names := (Text.sorted model.enums.keys).filter fun name =>
    Text.occursIn wanted (Text.lower name.toList)
  return .obj [("repo",.str label),("count",.ofNat names.length),
    ("enums",.arr (names.map fun name =>
      .obj [("name",.str name),("values",.arr ((model.enums.get? name).getD []))]))]

def enums (storagePath : Option String) (repo query : Json) : Action Json :=
  ask storagePath repo (enumsAnswer query)

end JavaAtlas.Query
