import JavaAtlas.Model.Basic
import JavaAtlas.Text.Order

/-! Resolution of superclass references. A reference is looked up in what the files declare and
never in another resolved reference, so the order of the units does not matter to it. The units
are rewritten one by one in their places. -/
namespace JavaAtlas.Model

/-- The name a reference stands for, and the candidates if there were several. -/
structure Resolution where
  name : String
  rivals : List String := []
  deriving DecidableEq, Repr

def candidates (model : Model) (name : String) : List String :=
  (Text.sorted model.packages.keys).filterMap fun package =>
    if ((model.packages.get? package).getD []).contains name then some (qualify package name)
    else none

/-- What a reference made in a package stands for. A dotted one is taken as qualified; then the
same package is preferred, then the first package with the name. A reference to nothing in the
model stays as written. -/
def resolution (model : Model) (reference package : String) : Resolution :=
  if reference.toList.contains '.' then ⟨reference,[]⟩
  else if model.units.contains (qualify package reference) then ⟨qualify package reference,[]⟩
  else
    match model.candidates reference with
    | [] => ⟨reference,[]⟩
    | [only] => ⟨only,[]⟩
    | first :: others => ⟨first,first :: others⟩

def ambiguityWarning (owner reference chosen : String) (rivals : List String) : String :=
  "Ambiguous superclass " ++ reference ++ " for " ++ owner ++ ": " ++ Text.join ", " rivals ++
    "; using " ++ chosen

/-- Records for the owner of a reference that it had several candidates. -/
def note (model : Model) (owner reference : String) (resolution : Resolution) : Model :=
  if resolution.rivals.isEmpty then model
  else
    {model with ambiguities := model.ambiguities.insert owner resolution.rivals}.warn
      (ambiguityWarning owner reference resolution.name resolution.rivals)

def resolveReference (model : Model) (reference package : String) (owner : Option String) :
    String × Model :=
  let resolution := model.resolution reference package
  (resolution.name,owner.elim model fun owner => model.note owner reference resolution)

def put (model : Model) (name : String) (unit : CompilationUnit) : Model :=
  {model with units := model.units.insert name unit}

def link (model : Model) (child parent : String) : Model :=
  match model.units.get? parent with
  | some unit =>
    if unit.subclasses.contains child then model
    else model.put parent {unit with subclasses := unit.subclasses ++ [child]}
  | none => model

/-- Rewrites the superclass of the unit with the name and links it to that, unless it is the unit
itself. -/
def resolveUnit (model : Model) (name : String) : Model :=
  match model.units.get? name with
  | none => model
  | some unit =>
    match unit.superclass with
    | none => model
    | some reference =>
      let resolved := model.resolveReference reference unit.package (some unit.qualifiedName)
      let rewritten := resolved.2.put name {unit with superclass := some resolved.1}
      if resolved.1 = name then rewritten else rewritten.link unit.qualifiedName resolved.1

def Change.resolve : Change Unit := do
  if (← get).resolved then throw .alreadyResolved
  modify fun model => model.units.keys.foldl resolveUnit model
  modify fun model => {model with resolved := true}

def resolve (model : Model) : Except Refusal Model :=
  (Change.resolve.outcome model).map Prod.fst

end JavaAtlas.Model
