import JavaAtlas.Query.Analyze
import JavaAtlas.Query.Search
import JavaAtlas.Service.Tool

/-! Calls of the tools. An answer is the text of a document, also when the call fails. -/
namespace JavaAtlas.Service

def required (arguments : Json) (name : String) : Action Json :=
  Action.ofShape (arguments.need name)

def optional (arguments : Json) (name : String) (default : Json) : Action Json :=
  Action.ofShape (arguments.getOr name default)

/-- The request for an analysis that is made by the arguments. -/
def analysisRequest (storagePath : Option String) (arguments : Json) :
    Except Json.Mismatch Query.AnalyzeRequest := do
  let path ← arguments.need "path"
  let specificClass ← arguments.getOr "specific_class" .null
  let outputDir ← arguments.getOr "output_dir" .null
  let useAssistant ← arguments.getOr "use_ai_summaries" (.bool false)
  return {path,specificClass,outputDir,useAssistant,storagePath}

def run (tool : Tool) (storagePath : Option String) (arguments : Json) : Action Json := do
  match tool with
  | .analyzeFolder => Query.analyze (← Action.ofShape (analysisRequest storagePath arguments))
  | .listAnalyses => Query.listing storagePath
  | .classHierarchy =>
    let repo ← required arguments "repo"
    Query.hierarchy storagePath repo (← optional arguments "package" .null)
  | .classOutline =>
    let repo ← required arguments "repo"
    Query.outline storagePath repo (← required arguments "class_name")
  | .searchEndpoints =>
    Query.searchEndpoints storagePath
      { repo := ← required arguments "repo"
        query := ← optional arguments "query" (.str "")
        httpMethod := ← optional arguments "http_method" .null
        limit := ← optional arguments "max_results" (.int 50) }
  | .enums =>
    let repo ← required arguments "repo"
    Query.enums storagePath repo (← optional arguments "query" (.str ""))
  | .report =>
    let repo ← required arguments "repo"
    let kind ← required arguments "report"
    Query.report storagePath repo kind (← optional arguments "class_name" .null)

/-- The answer to a call; a fault becomes an answer that tells it. -/
def answer (name : String) (arguments : Json) : StateM World Json := do
  match Tool.ofName? name with
  | none => return Query.refusal ("Unknown tool: " ++ name)
  | some tool =>
    match ← (run tool (← get).settings.storagePath arguments).run with
    | .ok value => return value
    | .error fault => return Query.refusal fault.message

def call (name : String) (arguments : Json) : StateM World String := do
  return String.ofList (← answer name arguments).print

end JavaAtlas.Service
