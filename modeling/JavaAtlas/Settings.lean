import JavaAtlas.Text.Case
import JavaAtlas.Text.Integer

/-! Settings from the environment. A variable that is unset, empty or unusable leaves the
default. -/
namespace JavaAtlas

abbrev Environment := List (String × String)

structure Settings where
  /-- Directory of stored analyses; the one in the home directory if there is none. -/
  storagePath : Option String := none
  outputDir : String := "code-analysis"
  maxWorkers : Int := 1
  maxFiles : Int := 5000
  logLevel : String := "INFO"
  assistantAvailable : Bool := false
  deriving DecidableEq, Repr

namespace Settings

def given? (environment : Environment) (name : String) : Option String :=
  (environment.lookup name).filter fun value => !value.isEmpty

def positive (environment : Environment) (name : String) (default : Int) : Int :=
  match (given? environment name).bind fun value => Text.integer? value.toList with
  | some value => if value < 1 then default else value
  | none => default

def ofEnvironment (environment : Environment) : Settings where
  storagePath := given? environment "CODE_ANALYSIS_PATH"
  outputDir := (given? environment "JCODESCAN_OUTPUT_DIR").getD "code-analysis"
  maxWorkers := positive environment "JCODESCAN_MAX_WORKERS" 1
  maxFiles := positive environment "JCODESCAN_MAX_FILES" 5000
  logLevel := String.ofList
    (Text.upper ((given? environment "JCODESCAN_LOG_LEVEL").getD "INFO").toList)
  assistantAvailable := (given? environment "ANTHROPIC_API_KEY").isSome

end Settings

end JavaAtlas
