import JavaAtlas.Settings
import JavaAtlas.Text.Quoted

/-! The help on the option for the output directory. It shows the default directory, and what
looks like a placeholder in the name of that directory is filled in like any other: a percent sign,
perhaps a name in parentheses, flags, a width, a precision, and the letter of a conversion. -/
namespace JavaAtlas.CommandLine.Help

/-- What can be said of a value that fills a placeholder. The only number is zero. -/
inductive Supply where
  | text
  | number
  | other
  deriving DecidableEq, Repr

def named : List (String × Supply) :=
  [("option_strings",.other),("dest",.text),("nargs",.other),("const",.other),("default",.text),
    ("type",.other),("choices",.other),("required",.number),("help",.text),("metavar",.other),
    ("container",.other),("prog",.text)]

inductive Problem where
  | unknownName (name : String)
  | wrongSupply
  | malformed
  | tooPrecise
  | tooWide
  deriving DecidableEq, Repr

def Problem.message : Problem → String
  | .unknownName name => String.ofList (Text.quoted name.toList)
  | .wrongSupply => "a placeholder in the help cannot be filled"
  | .malformed => "a placeholder in the help is malformed"
  | .tooPrecise => "a placeholder in the help asks for too many digits"
  | .tooWide => "a placeholder in the help asks for too much space"

/-- A name up to the parenthesis that closes it, with `depth` inner ones open, and the rest. -/
def closing (depth : Nat) (name : List Char) : List Char → Option (List Char × List Char)
  | [] => none
  | c :: rest =>
    if c == ')' then
      match depth with
      | 0 => some (name.reverse,rest)
      | depth + 1 => closing depth (c :: name) rest
    else closing (if c == '(' then depth + 1 else depth) (c :: name) rest

structure Reading where
  rest : List Char
  supply : Option Supply

def readName (reading : Reading) : Except Problem Reading :=
  match reading.rest with
  | '(' :: inside =>
    match closing 0 [] inside with
    | none => .error .malformed
    | some (name,rest) =>
      match named.lookup (String.ofList name) with
      | some supply => .ok ⟨rest,some supply⟩
      | none => .error (.unknownName (String.ofList name))
  | _ => .ok reading

/-- A number that is written or, for an asterisk, supplied; zero without either. It must not exceed
the limit. -/
def readNumber (limit : Nat) (reading : Reading) : Except Problem (Nat × Reading) :=
  match reading.rest with
  | '*' :: rest =>
    if reading.supply == some .number then .ok (0,⟨rest,none⟩) else .error .wrongSupply
  | rest =>
    let digits := rest.takeWhile Char.isDigit
    let value := digits.foldl (fun value c => 10 * value + (c.toNat - 48)) 0
    if limit < value then .error .malformed
    else .ok (value,{reading with rest := rest.drop digits.length})

def widthLimit : Nat := 9223372036854775807

def precisionLimit : Nat := 2147483647

def readPrecision (reading : Reading) : Except Problem (Nat × Reading) :=
  match reading.rest with
  | '.' :: rest => readNumber precisionLimit {reading with rest}
  | _ => .ok (0,reading)

def dropSize : List Char → List Char
  | 'h' :: rest => rest
  | 'l' :: rest => rest
  | 'L' :: rest => rest
  | rest => rest

def textLetters : List Char := ['s','r','a']

def wholeLetters : List Char := ['d','i','u','o','x','X']

def numberLetters : List Char := wholeLetters ++ ['e','E','f','F','g','G','c']

def digitLimit : Nat := 2147483644

def spaceLimit : Nat := 8589934592

def checkSize (letter : Char) (width precision : Nat) : Except Problem Unit :=
  if wholeLetters.contains letter && digitLimit < precision then .error .tooPrecise
  else if spaceLimit ≤ width then .error .tooWide
  else .ok ()

def convert (width precision : Nat) (reading : Reading) : Except Problem Reading :=
  match dropSize reading.rest with
  | [] => .error .malformed
  | letter :: rest =>
    match reading.supply with
    | none => .error .wrongSupply
    | some supply =>
      if !(textLetters ++ numberLetters).contains letter then .error .malformed
      else if numberLetters.contains letter && supply != .number then .error .wrongSupply
      else (checkSize letter width precision).map fun _ => ⟨rest,none⟩

def readPlaceholder (reading : Reading) : Except Problem Reading := do
  let named ← readName reading
  let (width,sized) ← readNumber widthLimit
    {named with rest := named.rest.dropWhile "-+ #0".toList.contains}
  let (precision,ready) ← readPrecision sized
  convert width precision ready

/-- Whether all placeholders of a text can be filled. At first the supply without a name is all
that is known of the option, and it serves once. The fuel bounds the number of placeholders. -/
def fill : Nat → Reading → Except Problem Unit
  | 0, _ => .ok ()
  | fuel + 1, reading =>
    match reading.rest.dropWhile (· != '%') with
    | [] => .ok ()
    | _ :: '%' :: rest => fill fuel {reading with rest}
    | _ :: rest => do fill fuel (← readPlaceholder {reading with rest})

def outputDirHelp (settings : Settings) : List Char :=
  ("Directory for reports (default: " ++ settings.outputDir ++ ")").toList

def check (settings : Settings) : Except Problem Unit :=
  let text := outputDirHelp settings
  fill text.length ⟨text,some .other⟩

end JavaAtlas.CommandLine.Help
