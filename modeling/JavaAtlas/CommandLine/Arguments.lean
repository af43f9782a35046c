import JavaAtlas.Settings

/-! Arguments of the command line: a folder, perhaps a class, and options anywhere between them.
Long options may be shortened as long as they stay clear, and two dashes alone end the options. -/
namespace JavaAtlas.CommandLine

/-- What the command is told. An option whose value is written as two dashes has none. -/
structure Arguments where
  sourceDir : String
  specificClass : Option String
  outputDir : Option String
  workers : Option Int
  useAssistant : Bool
  logLevel : Option String
  deriving DecidableEq, Repr

inductive Flag where
  | help
  | outputDir
  | workers
  | assistant
  | logLevel
  deriving DecidableEq, Repr

def Flag.takesValue : Flag → Bool
  | .help => false
  | .outputDir => true
  | .workers => true
  | .assistant => false
  | .logLevel => true

def flagNames : List (String × Flag) :=
  [("-h",.help),("--help",.help),("--output-dir",.outputDir),("--workers",.workers),
    ("--ai-summaries",.assistant),("--log-level",.logLevel)]

def logLevels : List String := ["DEBUG","INFO","WARNING","ERROR"]

/-- One argument by its form. An option that is not known has no flag, and a short one is told
apart by its single dash. -/
inductive Item where
  | plain (text : String)
  | separator
  | option (flag : Option Flag) (short : Bool) (value : Option String)
  deriving DecidableEq, Repr

def divideValue (text : List Char) : List Char × Option (List Char) :=
  if text.contains '=' then
    (text.takeWhile (· != '='),some ((text.dropWhile (· != '=')).drop 1))
  else (text,none)

def isNegativeNumber (text : List Char) : Bool :=
  let isDigit := fun c => (Text.digitValue? c).isSome
  let body := if text.getLast? == some '\n' then text.dropLast else text
  match body with
  | '-' :: rest =>
    let fraction := (rest.dropWhile isDigit).drop 1
    (!rest.isEmpty && rest.all isDigit) ||
      ((rest.dropWhile isDigit).head? == some '.' && !fraction.isEmpty && fraction.all isDigit)
  | _ => false

/-- The options that a text may stand for, with their values: every long one that it begins, and
a short one with its value attached. -/
def readings (text : List Char) : List Item :=
  match text with
  | '-' :: '-' :: _ =>
    let (name,value) := divideValue text
    (flagNames.filter fun entry => name.isPrefixOf entry.1.toList).map fun entry =>
      .option (some entry.2) false (value.map String.ofList)
  | _ =>
    flagNames.filterMap fun entry =>
      if entry.1.toList == text.take 2 then
        some (.option (some entry.2) true (some (String.ofList (text.drop 2))))
      else if text.isPrefixOf entry.1.toList then some (.option (some entry.2) false none)
      else none

def classify (text : String) : Option Item :=
  let chars := text.toList
  if chars.head? != some '-' then some (.plain text)
  else
    match flagNames.lookup text with
    | some flag => some (.option (some flag) false none)
    | none =>
      if chars.length == 1 then some (.plain text)
      else
        let (name,value) := divideValue chars
        match value,flagNames.lookup (String.ofList name) with
        | some value,some flag =>
          some (.option (some flag) (name.length == 2) (some (String.ofList value)))
        | _,_ =>
          match readings chars with
          | [] =>
            if isNegativeNumber chars || chars.contains ' ' then some (.plain text)
            else some (.option none false none)
          | [item] => some item
          | _ => none

/-- Arguments by their forms; after two dashes alone every one is plain. -/
def classifyAll : List String → Option (List Item)
  | [] => some []
  | text :: rest =>
    if text == "--" then some (.separator :: rest.map .plain)
    else (classify text).bind fun item => (classifyAll rest).map (item :: ·)

inductive Outcome where
  | run (arguments : Arguments)
  | help
  | misuse
  deriving DecidableEq, Repr

inductive Stage where
  | folder
  | className
  | afterClass
  | closed
  deriving DecidableEq, Repr

/-- What has been read so far; `extra` tells that something had no place. -/
structure Progress where
  stage : Stage := .folder
  source : String := ""
  specificClass : Option String := none
  outputDir : Option String
  workers : Option Int
  useAssistant : Bool := false
  logLevel : Option String
  extra : Bool := false

namespace Progress

def finish (progress : Progress) : Outcome :=
  if progress.stage == .folder || progress.extra then .misuse
  else
    .run ⟨progress.source,progress.specificClass,progress.outputDir,progress.workers,
      progress.useAssistant,progress.logLevel⟩

/-- Takes a plain argument. In place of the class, two dashes stand for none. -/
def takePlain (progress : Progress) (text : String) : Progress :=
  match progress.stage with
  | .folder => {progress with stage := .className, source := text}
  | .className =>
    {progress with stage := .afterClass, specificClass := if text == "--" then none else some text}
  | _ => {progress with extra := true}

def takeSeparator (progress : Progress) : Progress :=
  match progress.stage with
  | .afterClass => {progress with stage := .closed}
  | .closed => {progress with extra := true}
  | _ => progress

/-- Takes an option. The class has to follow the folder directly. -/
def takeOption (progress : Progress) : Progress :=
  if progress.stage == .folder then progress else {progress with stage := .closed}

def setValue (progress : Progress) (flag : Flag) (value : String) : Option Progress :=
  match flag with
  | .outputDir => some {progress with outputDir := some value}
  | .workers =>
    (Text.integer? value.toList).map fun workers => {progress with workers := some workers}
  | .logLevel =>
    if logLevels.contains value then some {progress with logLevel := some value} else none
  | _ => none

def clearValue (progress : Progress) (flag : Flag) : Progress :=
  match flag with
  | .outputDir => {progress with outputDir := none}
  | .workers => {progress with workers := none}
  | .logLevel => {progress with logLevel := none}
  | _ => progress

def setWritten (progress : Progress) (flag : Flag) (value : String) : Option Progress :=
  if value == "--" then some (progress.clearValue flag) else progress.setValue flag value

end Progress

/-- Whether letters behind the short option for help are options too, which only its own letter
is. -/
def mayFollowHelp (letters : List Char) : Bool := !letters.isEmpty && letters.all (· == 'h')

def consume : List Item → Progress → Outcome
  | [], progress => progress.finish
  | .plain text :: rest, progress => consume rest (progress.takePlain text)
  | .separator :: rest, progress => consume rest progress.takeSeparator
  | .option none _ _ :: rest, progress => consume rest {progress.takeOption with extra := true}
  | .option (some flag) short (some value) :: rest, progress =>
    if flag.takesValue then
      match progress.takeOption.setWritten flag value with
      | some next => consume rest next
      | none => .misuse
    else if short && mayFollowHelp value.toList then .help
    else .misuse
  | .option (some flag) _ none :: rest, progress =>
    if flag.takesValue then
      match rest with
      | .plain value :: rest =>
        match progress.takeOption.setValue flag value with
        | some next => consume rest next
        | none => .misuse
      | _ => .misuse
    else if flag == .help then .help
    else consume rest {progress.takeOption with useAssistant := true}

/-- What the arguments ask for, with defaults from the settings. An unclear option is refused
before anything else. -/
def parse (settings : Settings) (arguments : List String) : Outcome :=
  match classifyAll arguments with
  | none => .misuse
  | some items =>
    consume items
      { outputDir := some settings.outputDir
        workers := some settings.maxWorkers
        logLevel := some settings.logLevel }

end JavaAtlas.CommandLine
