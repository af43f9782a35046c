import JavaAtlas.Json.Literal
import JavaAtlas.Json.Order
import JavaAtlas.Json.Printer
import JavaAtlas.Model.Document
import JavaAtlas.Text.Order
import JavaAtlas.World

/-! Stored analyses: one document for each, in a directory that is made when the store is opened.
The name of the file joins owner and name. -/
namespace JavaAtlas

/-- A stored analysis as it is read: its parts are there, whatever they hold. -/
structure StoredAnalysis where
  repo : Json
  owner : Json
  name : Json
  analyzedAt : Json
  sourceRoot : Json
  sourceFiles : Json
  stats : Json
  model : Json

namespace StoredAnalysis

def toJson (analysis : StoredAnalysis) : Json :=
  .obj [("repo",analysis.repo),("owner",analysis.owner),("name",analysis.name),
    ("analyzed_at",analysis.analyzedAt),("source_root",analysis.sourceRoot),
    ("source_files",analysis.sourceFiles),("stats",analysis.stats),("model",analysis.model)]

def ofJson (value : Json) : Except Json.Mismatch StoredAnalysis := do
  return ⟨← value.need "repo",← value.need "owner",← value.need "name",
    ← value.need "analyzed_at",← value.need "source_root",← value.need "source_files",
    ← value.need "stats",← value.need "model"⟩

end StoredAnalysis

structure Store where
  directory : Path
  deriving DecidableEq, Repr

namespace Store

def openAt (directory : Option String) : Action Store := do
  let path ←
    match directory.filter fun text => !text.isEmpty with
    | some text => pure (Path.ofText text)
    | none => Action.expandHome ⟨0,["~",".code-analysis"]⟩
  Action.makeDirectories path
  return ⟨path⟩

def fileOf (store : Store) (owner name : String) : Path :=
  store.directory.child (owner ++ "-" ++ name ++ ".json")

def record (owner name : Json) (clock : String) (sourceRoot sourceFiles : Json)
    (stats : Model.Stats) (model : Json) : StoredAnalysis where
  repo := .str (owner.text ++ "/" ++ name.text)
  owner
  name
  analyzedAt := .str clock
  sourceRoot
  sourceFiles
  stats := .obj stats.fields
  model

def describe (owner name clock sourceRoot : String) (sourceFiles : List String) (model : Model) :
    StoredAnalysis :=
  record (.str owner) (.str name) clock (.str sourceRoot) (.strings sourceFiles) model.stats
    model.toJson

def put (store : Store) (analysis : StoredAnalysis) : Action StoredAnalysis := do
  Action.write (store.fileOf analysis.owner.text analysis.name.text)
    (String.ofList analysis.toJson.print)
  return analysis

def save (store : Store) (owner name : String) (model : Model) (sourceRoot : String)
    (sourceFiles : List String) : Action StoredAnalysis := do
  store.put (describe owner name (← get).clock sourceRoot sourceFiles model)

def isThere (store : Store) (owner name : String) : Action Bool := do
  return (← Action.find? (store.fileOf owner name)).isSome

def load (store : Store) (owner name : String) : Action (Option StoredAnalysis) := do
  if ← store.isThere owner name then
    let value ← Action.readDocument (store.fileOf owner name)
    return some (← Action.ofShape (StoredAnalysis.ofJson value))
  else return none

def delete (store : Store) (owner name : String) : Action Bool := do
  if ← store.isThere owner name then
    Action.removeFile (store.fileOf owner name)
    return true
  else return false

/-- The entry of a document in the list. Counts of the analysis follow, and one that has the name
of another field takes its place. -/
def entry (value : Json) : Except Json.Mismatch Json := do
  let repo ← value.need "repo"
  let analyzedAt ← value.need "analyzed_at"
  let sourceRoot ← value.need "source_root"
  let fileCount ← (← value.need "source_files").count
  let stats ← (← value.need "stats").mapping
  return .obj (OrderedMap.ofList ([("repo",repo),("analyzed_at",analyzedAt),
    ("source_root",sourceRoot),("file_count",.ofNat fileCount)] ++ stats)).entries

/-- Whether a fault of one file leaves the others listed: it cannot be read, is no document, or
lacks a part. A document that is too deep to be read is none of these. -/
def isPassedOver : Fault → Bool
  | .disk _ => true
  | .encoding _ => true
  | .document problem => problem.cause != .tooDeepList && problem.cause != .tooDeepObject
  | .shape (.missingKey _) => true
  | _ => false

def entryOf? (path : Path) : Action (Option Json) :=
  tryCatch (do return some (← Action.ofShape (entry (← Action.readDocument path)))) fun fault =>
    if isPassedOver fault then return none else throw fault

def list (store : Store) : Action (List Json) := do
  let world ← get
  let names :=
    match world.disk.locate world.here store.directory with
    | .ok place =>
      (world.disk.names place).filter fun name => ".json".toList.isSuffixOf name.toList
    | .error _ => []
  (Text.sorted names).filterMapM fun name =>
    entryOf? (store.directory.join ⟨0,[name]⟩)

def divide (repo : String) : String × String :=
  (String.ofList (repo.toList.takeWhile (· != '/')),
    String.ofList ((repo.toList.dropWhile (· != '/')).drop 1))

def findName (name : String) : List Json → Except Json.Mismatch (Option (String × String))
  | [] => .ok none
  | entry :: rest =>
    match entry.need "repo" with
    | .ok (.str repo) =>
      if ('/' :: name.toList).isSuffixOf repo.toList then .ok (some (divide repo))
      else findName name rest
    | .ok other => .error (.lacks other "endswith")
    | .error mismatch => .error mismatch

def resolve (store : Store) (repo : Json) : Action (Option (String × String)) := do
  if ← Action.ofShape (repo.holds '/') then
    return some (divide (← Action.ofShape (repo.textFor "split")))
  else Action.ofShape (findName repo.text (← store.list))

end Store

end JavaAtlas
