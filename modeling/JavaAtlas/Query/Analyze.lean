import JavaAtlas.Analysis
import JavaAtlas.Report.Files
import JavaAtlas.Store.Basic

/-! Analysis of a folder on request: find the sources, build and summarise the model, store it and
write the reports that were asked for. Where it ends before the store, the answer tells why. -/
namespace JavaAtlas.Query

/-- What is asked for. A value of the wrong kind makes the analysis fail when it is needed. -/
structure AnalyzeRequest where
  path : Json
  specificClass : Json := .null
  outputDir : Json := .null
  useAssistant : Json := .bool false
  workers : Json := .null
  storagePath : Option String := none

def sourcesFor (world : World) (folder : Path) (specificClass : Option String) : List Path :=
  match specificClass.filter fun name => !name.isEmpty with
  | some name => Discovery.classSources world.disk world.here folder name
  | none =>
    Discovery.sources world.disk world.here folder world.settings.maxFiles
      Discovery.defaultMaxSize

def findSources (folder : Path) (specificClass : Option String) : Action (List Path) := do
  let world ← get
  match Discovery.lookThrough world.disk world.here folder with
  | .ok _ => return sourcesFor world folder specificClass
  | .error fault => throw (.disk fault)

/-- The model with summaries of all methods; the assistant takes part if it is asked for and
available. -/
def summarize (useAssistant : Bool) (model : Model) : Action Model := do
  let world ← get
  let available := if world.settings.assistantAvailable then some world.assistant else none
  let (methods,next) := Summary.all useAssistant available model.methods
  set {world with assistant := next.getD world.assistant}
  return model.withMethods methods

def failure (message : String) (more : List (String × Json)) : Json :=
  .obj ([("success",.bool false),("error",.str message)] ++ more)

def pathOf : Json → Except Json.Mismatch Path
  | .str text => .ok (.ofText text)
  | other => .error (.notPath other)

def classNameOf (value : Json) : Except Json.Mismatch (Option String) :=
  match value with
  | .str name => .ok (if name.isEmpty then none else some name)
  | other => if other.isGiven then .error (.notClassName other) else .ok none

/-- A number of workers changes nothing, but it has to be a number. -/
def checkWorkers (workers : Json) : Except Json.Mismatch Unit :=
  if workers.isNumber then .ok () else .error (.notOrdered (.int 1) workers)

def listedReports : Nat := 20

def writeReports (outputDir : Json) (model : Model) : Action (List (String × Json)) := do
  if outputDir.isGiven then
    let written ← Report.writeAll model (← Action.ofShape (pathOf outputDir))
    return [("reports",.strings ((written.take listedReports).map Path.text)),
      ("report_count",.ofNat written.length)]
  else return []

/-- An analysis that is in the store. -/
structure Deposit where
  place : Place
  fileCount : Nat
  model : Model
  analysis : StoredAnalysis

/-- The name of the folder, under which its analysis is stored. -/
def Deposit.name (deposit : Deposit) : String := deposit.place.path.name

/-- Stores a model under the name of its folder. -/
def keep (request : AnalyzeRequest) (place : Place) (fileCount : Nat) (model : Model) :
    Action Deposit := do
  let folder := place.path
  let store ← Store.openAt ((request.storagePath.filter fun text => !text.isEmpty).or
    (← get).settings.storagePath)
  let analysis ← store.save "local" folder.name model folder.text
    (model.units.values.map CompilationUnit.file)
  return {place,fileCount,model,analysis}

/-- Summarises and stores a model, or answers that it holds nothing. -/
def depositModel (request : AnalyzeRequest) (place : Place) (fileCount : Nat) (model : Model) :
    Action (Except Json Deposit) := do
  if model.units.isEmpty then
    return .error
      (failure "No classes extracted from files" [("warnings",.strings model.warnings)])
  else
    return .ok (← keep request place fileCount
      (← summarize request.useAssistant.isGiven model))

/-- The analysis of some files up to the store, or the answer with which it ends before. -/
def depositFiles (request : AnalyzeRequest) (place : Place) (files : List Path) :
    Action (Except Json Deposit) := do
  if files.isEmpty then return .error (failure "No source files found" [])
  else
    if request.workers.isGiven then Action.ofShape (checkWorkers request.workers)
    let world ← get
    depositModel request place files.length (Analysis.ofFiles world.disk world.here files)

def deposit (request : AnalyzeRequest) : Action (Except Json Deposit) := do
  let place ← Action.resolve (← Action.ofShape (pathOf request.path))
  match ← Action.find? place.path with
  | none => return .error (failure ("Folder not found: " ++ request.path.text) [])
  | some (.file _) => return .error (failure ("Path is not a directory: " ++ request.path.text) [])
  | some .directory =>
    let specificClass ← Action.ofShape (classNameOf request.specificClass)
    depositFiles request place (← findSources place.path specificClass)

/-- Writes the reports of what is in the store and describes what was done. -/
def conclude (request : AnalyzeRequest) (deposit : Deposit) : Action Json := do
  let folder := deposit.place.path
  let model := deposit.model
  let reports ← writeReports request.outputDir model
  return .obj ([("success",.bool true),("repo",.str ("local/" ++ folder.name)),
    ("folder_path",.str folder.text),("analyzed_at",deposit.analysis.analyzedAt),
    ("file_count",.ofNat deposit.fileCount)] ++ model.stats.fields ++ reports ++
    (if model.ambiguities.isEmpty then []
      else [("ambiguous_references",.stringLists model.ambiguities)]) ++
    (if model.warnings.isEmpty then [] else [("warnings",.strings model.warnings)]))

def analyze (request : AnalyzeRequest) : Action Json := do
  match ← deposit request with
  | .error answer => return answer
  | .ok stored => conclude request stored

end JavaAtlas.Query
