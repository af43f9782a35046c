import JavaAtlas.Json.Basic
import JavaAtlas.Text.Integer

/-! Reading of documents. A failure tells what was expected and where; of two fields with the
same name the later value takes the place of the earlier. Lists and objects may lie in each other
up to a certain depth. -/
namespace JavaAtlas.Json

inductive Cause where
  | byteOrderMark
  | expectingValue
  | expectingName
  | expectingColon
  | expectingComma
  | unterminatedString
  | controlCharacter
  | badEscape
  | badUnicodeEscape
  | extraData
  | tooManyDigits (count : Nat)
  | tooDeepList
  | tooDeepObject
  deriving DecidableEq, Repr

/-- A failure before `rest`, the part of the text that starts at the place it is told of. -/
structure Failure where
  cause : Cause
  rest : List Char

structure Problem where
  cause : Cause
  line : Nat
  column : Nat
  position : Nat
  deriving DecidableEq, Repr

def Cause.text : Cause → String
  | .byteOrderMark => "Unexpected UTF-8 BOM (decode using utf-8-sig)"
  | .expectingValue => "Expecting value"
  | .expectingName => "Expecting property name enclosed in double quotes"
  | .expectingColon => "Expecting ':' delimiter"
  | .expectingComma => "Expecting ',' delimiter"
  | .unterminatedString => "Unterminated string starting at"
  | .controlCharacter => "Invalid control character at"
  | .badEscape => "Invalid \\escape"
  | .badUnicodeEscape => "Invalid \\uXXXX escape"
  | .extraData => "Extra data"
  | .tooManyDigits count =>
    "Exceeds the limit (4300 digits) for integer string conversion: value has " ++
      String.ofList (Text.ofInt count) ++
      " digits; use sys.set_int_max_str_digits() to increase the limit"
  | .tooDeepList =>
    "maximum recursion depth exceeded while decoding a JSON array from a unicode string"
  | .tooDeepObject =>
    "maximum recursion depth exceeded while decoding a JSON object from a unicode string"

def Cause.isLocated : Cause → Bool
  | .tooManyDigits _ => false
  | .tooDeepList => false
  | .tooDeepObject => false
  | _ => true

def Problem.message (problem : Problem) : String :=
  if problem.cause.isLocated then
    problem.cause.text ++ ": line " ++ String.ofList (Text.ofInt problem.line) ++ " column " ++
      String.ofList (Text.ofInt problem.column) ++ " (char " ++
      String.ofList (Text.ofInt problem.position) ++ ")"
  else problem.cause.text

def Failure.locate (text : List Char) (failure : Failure) : Problem :=
  let position := text.length - failure.rest.length
  let before := text.take position
  { cause := failure.cause
    line := before.count '\n' + 1
    column := (Text.afterLast '\n' before).length + 1
    position }

def skipSpace (text : List Char) : List Char :=
  text.dropWhile fun c => c == ' ' || c == '\t' || c == '\n' || c == '\r'

def hexValue? (c : Char) : Option Nat :=
  if '0' ≤ c && c ≤ '9' then some (c.toNat - 48)
  else if 'a' ≤ c && c ≤ 'f' then some (c.toNat - 87)
  else if 'A' ≤ c && c ≤ 'F' then some (c.toNat - 55)
  else none

def hexUnit? (digits : List Char) : Option Nat :=
  digits.foldlM (fun value c => (hexValue? c).map (16 * value + ·)) 0

def shortEscape? (c : Char) : Option Char :=
  if c == '"' || c == '\\' || c == '/' then some c
  else if c == 'b' then some '\x08'
  else if c == 'f' then some '\x0c'
  else if c == 'n' then some '\n'
  else if c == 'r' then some '\r'
  else if c == 't' then some '\t'
  else none

/-- Characters of code points, in which two surrogates in a row form one character. A surrogate
alone has no character, and the replacement character stands for it. -/
def ofUnits : List Nat → List Char → List Char
  | [], done => done.reverse
  | unit :: rest, done =>
    if 0xD800 ≤ unit && unit ≤ 0xDBFF then
      match rest with
      | low :: others =>
        if 0xDC00 ≤ low && low ≤ 0xDFFF then
          ofUnits others (Char.ofNat (0x10000 + 0x400 * (unit - 0xD800) + (low - 0xDC00)) :: done)
        else ofUnits (low :: others) ('\uFFFD' :: done)
      | [] => ('\uFFFD' :: done).reverse
    else if 0xDC00 ≤ unit && unit ≤ 0xDFFF then ofUnits rest ('\uFFFD' :: done)
    else ofUnits rest (Char.ofNat unit :: done)

def readString (start : List Char) :
    List Char → List Nat → Except Failure (String × List Char)
  | [], _ => .error ⟨.unterminatedString,start⟩
  | c :: rest, done =>
    if c == '"' then .ok (String.ofList (ofUnits done.reverse []),rest)
    else if c == '\\' then
      match rest with
      | [] => .error ⟨.unterminatedString,start⟩
      | escape :: after =>
        if escape == 'u' then
          match after with
          | a :: b :: d :: e :: next :: more =>
            match hexUnit? [a,b,d,e] with
            | some unit => readString start (next :: more) (unit :: done)
            | none => .error ⟨.badUnicodeEscape,escape :: after⟩
          | _ => .error ⟨.badUnicodeEscape,escape :: after⟩
        else
          match shortEscape? escape with
          | some plain => readString start after (plain.toNat :: done)
          | none => .error ⟨.badEscape,c :: rest⟩
    else if c.toNat < 0x20 then .error ⟨.controlCharacter,c :: rest⟩
    else readString start rest (c.toNat :: done)

def digits (text : List Char) : List Char × List Char :=
  (text.takeWhile Char.isDigit,text.dropWhile Char.isDigit)

def fraction (text : List Char) : List Char × List Char :=
  match text with
  | '.' :: rest =>
    if (digits rest).1.isEmpty then ([],text) else ('.' :: (digits rest).1,(digits rest).2)
  | _ => ([],text)

def exponent (text : List Char) : List Char × List Char :=
  match text with
  | [] => ([],text)
  | mark :: rest =>
    if mark == 'e' || mark == 'E' then
      let sign := (rest.take 1).filter fun c => c == '+' || c == '-'
      let after := digits (rest.drop sign.length)
      if after.1.isEmpty then ([],text) else (mark :: (sign ++ after.1),after.2)
    else ([],text)

def naturalOf (digits : List Char) : Nat :=
  digits.foldl (fun value c => 10 * value + (c.toNat - 48)) 0

/-- The number with the digits of a whole part, a fraction with its mark, and an exponent with its
mark and sign. -/
def floatOf (negative : Bool) (whole point power : List Char) : Binary64 :=
  let places : Int := naturalOf (power.filter Char.isDigit)
  .ofDecimal negative (naturalOf (whole ++ point.drop 1))
    ((if power.contains '-' then -places else places) - ((point.length - 1 : Nat) : Int))

/-- The digits before a point. A zero in front is a whole part of its own. -/
def wholePart (text : List Char) : List Char × List Char :=
  match text with
  | '0' :: rest => (['0'],rest)
  | _ => digits text

def readNumber (text : List Char) : Except Failure (Json × List Char) :=
  let sign := (text.take 1).filter (· == '-')
  let whole := wholePart (text.drop sign.length)
  if whole.1.isEmpty then .error ⟨.expectingValue,text⟩
  else
    let point := fraction whole.2
    let power := exponent point.2
    if point.1.isEmpty && power.1.isEmpty then
      match Text.integer? (sign ++ whole.1) with
      | some value => .ok (.int value,whole.2)
      | none => .error ⟨.tooManyDigits whole.1.length,text⟩
    else .ok (.float (floatOf (!sign.isEmpty) whole.1 point.1 power.1),power.2)

def wordValues : List (String × Json) :=
  [("null",.null),("true",.bool true),("false",.bool false),("NaN",.float .notANumber),
    ("Infinity",.float (.infinite false)),("-Infinity",.float (.infinite true))]

def readPlain (text : List Char) : Except Failure (Json × List Char) :=
  match wordValues.find? fun entry => entry.1.toList.isPrefixOf text with
  | some entry => .ok (entry.2,text.drop entry.1.toList.length)
  | none => readNumber text

mutual
/-- A value at the start of the text, with lists and objects in each other up to the given depth.
Between two calls of these functions at least one character is read on every other call, which
bounds their number. -/
def readValue : Nat → Nat → List Char → Except Failure (Json × List Char)
  | 0, _, text => .error ⟨.expectingValue,text⟩
  | fuel + 1, depth, text =>
    match text with
    | [] => .error ⟨.expectingValue,text⟩
    | c :: rest =>
      if c == '"' then (readString text rest []).map fun read => (.str read.1,read.2)
      else if c == '[' then
        match depth, skipSpace rest with
        | 0, _ => .error ⟨.tooDeepList,text⟩
        | _ + 1, ']' :: after => .ok (.arr [],after)
        | depth + 1, inside => readItems fuel depth inside []
      else if c == '{' then
        match depth, skipSpace rest with
        | 0, _ => .error ⟨.tooDeepObject,text⟩
        | _ + 1, '}' :: after => .ok (.obj [],after)
        | depth + 1, inside => readFields fuel depth inside []
      else readPlain text

def readItems : Nat → Nat → List Char → List Json → Except Failure (Json × List Char)
  | 0, _, text, _ => .error ⟨.expectingValue,text⟩
  | fuel + 1, depth, text, done =>
    match readValue fuel depth text with
    | .error failure => .error failure
    | .ok (item,rest) =>
      match skipSpace rest with
      | ']' :: after => .ok (.arr (item :: done).reverse,after)
      | ',' :: after => readItems fuel depth (skipSpace after) (item :: done)
      | other => .error ⟨.expectingComma,other⟩

def readFields : Nat → Nat → List Char → List (String × Json) → Except Failure (Json × List Char)
  | 0, _, text, _ => .error ⟨.expectingName,text⟩
  | fuel + 1, depth, text, done =>
    match text with
    | '"' :: inside =>
      match readString text inside [] with
      | .error failure => .error failure
      | .ok (name,rest) =>
        match skipSpace rest with
        | ':' :: after =>
          match readValue fuel depth (skipSpace after) with
          | .error failure => .error failure
          | .ok (value,rest) =>
            match skipSpace rest with
            | '}' :: after =>
              .ok (.obj (OrderedMap.ofList ((name,value) :: done).reverse).entries,after)
            | ',' :: after => readFields fuel depth (skipSpace after) ((name,value) :: done)
            | other => .error ⟨.expectingComma,other⟩
        | other => .error ⟨.expectingColon,other⟩
    | _ => .error ⟨.expectingName,text⟩
end

def depthLimit : Nat := 980

def read (text : List Char) : Except Problem Json :=
  if text.head? == some '\uFEFF' then .error (Failure.locate text ⟨.byteOrderMark,text⟩)
  else
    match readValue (2 * text.length + 2) depthLimit (skipSpace text) with
    | .error failure => .error (failure.locate text)
    | .ok (value,rest) =>
      let left := skipSpace rest
      if left.isEmpty then .ok value else .error (Failure.locate text ⟨.extraData,left⟩)

end JavaAtlas.Json
