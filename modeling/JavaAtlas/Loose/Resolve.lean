import JavaAtlas.Loose.Change
import JavaAtlas.Text.Words

/-! Resolution of superclass references that may be any values. Units are resolved one by one in
order, and those before one that cannot be resolved stay so. -/
namespace JavaAtlas.Loose.Model

def candidates (model : Model) (name : Json) : Except Json.Mismatch (List String) := do
  let keys ← Json.sorted (model.packages.map Prod.fst)
  return (keys.filterMap model.package?).filterMap fun package =>
    if Json.isAmong package.2 name then some (qualify package.1.text name.text) else none

def note (owner : String) (reference : Json) (chosen : String) (candidates : List String) :
    Change Unit := do
  modify fun model => {model with
    ambiguities := model.ambiguities.insert owner (candidates.map .str)}
  Change.warn ("Ambiguous superclass " ++ reference.text ++ " for " ++ owner ++ ": " ++
    Text.join ", " candidates ++ "; using " ++ chosen)

def resolveReference (reference package : Json) (owner : Option String) : Change Json := do
  let model ← get
  let own := qualify package.text reference.text
  if ← Change.ofShape (reference.holds '.') then return reference
  else if model.units.contains own then return .str own
  else
    match ← Change.ofShape (model.candidates reference), owner with
    | [],_ => return reference
    | first :: second :: others,some owner =>
      note owner reference first (first :: second :: others)
      return .str first
    | first :: _,_ => return .str first

def link (child parent : String) : Change Unit := do
  match (← get).units.get? parent with
  | some unit =>
    if !Json.isAmong unit.subclasses (.str child) then
      Change.put parent {unit with subclasses := unit.subclasses ++ [.str child]}
  | none => return ()

/-- Resolves the superclass of the unit with the name and links it to that. A superclass that
cannot be a key is kept, but it cannot be looked for. -/
def resolveUnit (name : String) (unit : CompilationUnit) (reference : Json) : Change Unit := do
  let superclass ← resolveReference reference unit.package (some name)
  Change.put name {unit with superclass}
  match ← Change.ofShape superclass.asKey with
  | .str parent => if parent != name then link name parent
  | _ => return ()

def resolve : Change Unit := do
  let model ← get
  if model.resolved.isGiven then throw (.refusal .alreadyResolved)
  for name in model.units.keys do
    match (← get).units.get? name with
    | some unit =>
      match unit.superclass with
      | .null => pure ()
      | reference => resolveUnit name unit reference
    | none => pure ()
  modify fun model => {model with resolved := .bool true}

end JavaAtlas.Loose.Model
