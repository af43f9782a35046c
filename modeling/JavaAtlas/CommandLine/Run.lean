import JavaAtlas.CommandLine.Arguments
import JavaAtlas.CommandLine.Help
import JavaAtlas.Query.Analyze

/-! The command: analyse a folder and write its reports. Nothing is stored. -/
namespace JavaAtlas.CommandLine

inductive Exit where
  | success
  | failure
  | misuse
  deriving DecidableEq, Repr

def Exit.code : Exit → Nat
  | .success => 0
  | .failure => 1
  | .misuse => 2

/-- Why an option has no value that can be used. -/
inductive Lack where
  | missing (flag : Flag)
  | unknownLevel (text : String)
  | notLevel
  deriving DecidableEq, Repr

inductive Break where
  | fault (fault : Fault)
  | noValue (lack : Lack)
  | help (problem : Help.Problem)

def Flag.name : Flag → String
  | .help => "--help"
  | .outputDir => "--output-dir"
  | .workers => "--workers"
  | .assistant => "--ai-summaries"
  | .logLevel => "--log-level"

def Lack.message : Lack → String
  | .missing flag => flag.name ++ " has no value"
  | .unknownLevel text => "Unknown level: " ++ String.ofList (Text.quoted text.toList)
  | .notLevel => "Level not an integer or a valid string"

def Break.message : Break → String
  | .fault cause => cause.message
  | .noValue lack => lack.message
  | .help problem => problem.message

abbrev Command (α : Type) := ExceptT Break (StateM World) α

def act {α : Type} (action : Action α) : Command α := ExceptT.adapt Break.fault action

def needed {α : Type} (flag : Flag) (value : Option α) : Command α :=
  match value with
  | some value => return value
  | none => throw (.noValue (.missing flag))

/-- What else than levels the logging library knows under a name in capitals: the default format of
a message, and the table of the styles of formats. -/
def otherNames : List (String × Lack) :=
  [("BASIC_FORMAT",.unknownLevel "%(levelname)s:%(name)s:%(message)s"),("_STYLES",.notLevel)]

/-- Accepts a level. A name that the logging library does not know stands for the default level,
but one that it knows for something else is refused. -/
def checkLevel (name : String) : Except Lack Unit :=
  match otherNames.lookup name with
  | some lack => .error lack
  | none => .ok ()

/-- Analyses files and writes the reports. The number of workers changes nothing but has to be
one. -/
def report (arguments : Arguments) (files : List Path) : Command Exit := do
  discard (needed .workers arguments.workers)
  let world ← get
  let model ← act (Query.summarize arguments.useAssistant
    (Analysis.ofFiles world.disk world.here files))
  let outputDir ← needed .outputDir arguments.outputDir
  discard (act (Report.writeAll model (Path.ofText outputDir)))
  return .success

def analyze (arguments : Arguments) : Command Exit := do
  let level ← needed .logLevel arguments.logLevel
  MonadExcept.ofExcept ((checkLevel level).mapError Break.noValue)
  let folder ← act (Action.expandHome (Path.ofText arguments.sourceDir))
  if ← act (Action.isDirectory folder) then
    let files ← act (Query.findSources folder arguments.specificClass)
    if files.isEmpty then return .failure else report arguments files
  else return .failure

def run (arguments : List String) : Command Exit := do
  let settings := (← get).settings
  match parse settings arguments with
  | .help =>
    match Help.check settings with
    | .ok _ => return .success
    | .error problem => throw (.help problem)
  | .misuse => return .misuse
  | .run arguments => analyze arguments

end JavaAtlas.CommandLine
