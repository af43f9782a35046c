import JavaAtlas.Java.Endpoint
import JavaAtlas.Query.Report

/-! The tools that the service offers, with the arguments that each takes. -/
namespace JavaAtlas

inductive Tool where
  | analyzeFolder
  | listAnalyses
  | classHierarchy
  | classOutline
  | searchEndpoints
  | enums
  | report
  deriving DecidableEq, Repr

namespace Tool

def all : List Tool :=
  [.analyzeFolder,.listAnalyses,.classHierarchy,.classOutline,.searchEndpoints,.enums,.report]

def name : Tool → String
  | .analyzeFolder => "analyze_folder"
  | .listAnalyses => "list_analyses"
  | .classHierarchy => "get_class_hierarchy"
  | .classOutline => "get_class_outline"
  | .searchEndpoints => "search_endpoints"
  | .enums => "get_enums"
  | .report => "get_report"

def ofName? (name : String) : Option Tool := all.find? fun tool => tool.name == name

def description : Tool → String
  | .analyzeFolder =>
    "Analyze a local folder of Java sources. Extracts packages, classes, inheritance, methods, " ++
      "enums and REST endpoints, and saves the model to local storage."
  | .listAnalyses => "List all analyzed folders."
  | .classHierarchy =>
    "Get the inheritance tree of an analyzed folder. Classes whose superclass is outside the " ++
      "folder are roots."
  | .classOutline =>
    "Get one class's supertypes, subclasses, methods (signatures, summaries, annotations) and " ++
      "REST endpoints."
  | .searchEndpoints => "Search REST endpoints by path, method, class or media type."
  | .enums => "List enums and their values."
  | .report =>
    "Render a Markdown report: API summary, class hierarchy, enum summary, or one class's " ++
      "method details."

structure Parameter where
  name : String
  type : String := "string"
  description : String
  default : Option Json := none
  choices : List String := []
  required : Bool := false

def Parameter.toJson (parameter : Parameter) : Json :=
  .obj ([("type",.str parameter.type),("description",.str parameter.description)] ++
    (parameter.default.map fun value => ("default",value)).toList ++
    if parameter.choices.isEmpty then [] else [("enum",.strings parameter.choices)])

def repoParameter : Parameter :=
  { name := "repo"
    description := "Analysis identifier (owner/name or just the folder name)"
    required := true }

def parameters : Tool → List Parameter
  | .analyzeFolder =>
    [ { name := "path"
        description :=
          "Path to local folder (absolute or relative, supports ~ for home directory)"
        required := true },
      { name := "specific_class"
        description := "Optional class name; analyze only files for that class" },
      { name := "output_dir"
        description := "Optional directory to write Markdown reports to" },
      { name := "use_ai_summaries"
        type := "boolean"
        description := "Use AI to summarize methods without javadoc (requires " ++
          "ANTHROPIC_API_KEY). When false, uses javadoc or signature fallback."
        default := some (.bool false) } ]
  | .listAnalyses => []
  | .classHierarchy =>
    [ repoParameter,
      { name := "package"
        description := "Optional package; keep only trees rooted in it or its subpackages" } ]
  | .classOutline =>
    [ repoParameter,
      { name := "class_name"
        description := "Qualified (com.acme.User) or simple (User) class name"
        required := true } ]
  | .searchEndpoints =>
    [ repoParameter,
      { name := "query"
        description := "Search query; empty lists every endpoint"
        default := some (.str "") },
      { name := "http_method"
        description := "Optional filter by HTTP verb"
        choices := Endpoint.verbs },
      { name := "max_results"
        type := "integer"
        description := "Maximum number of results to return"
        default := some (.int 50) } ]
  | .enums =>
    [ repoParameter,
      { name := "query"
        description := "Optional substring of the qualified enum name"
        default := some (.str "") } ]
  | .report =>
    [ repoParameter,
      { name := "report"
        description := "Which report to render"
        choices := Query.ReportKind.all.map Query.ReportKind.name
        required := true },
      { name := "class_name"
        description := "Class for the methods report" } ]

def inputSchema (tool : Tool) : Json :=
  let required := (tool.parameters.filter Parameter.required).map Parameter.name
  .obj ([("type",.str "object"),
    ("properties",.obj (tool.parameters.map fun parameter =>
      (parameter.name,parameter.toJson)))] ++
    if required.isEmpty then [] else [("required",.strings required)])

def toJson (tool : Tool) : Json :=
  .obj [("name",.str tool.name),("description",.str tool.description),
    ("inputSchema",tool.inputSchema)]

end Tool

end JavaAtlas
