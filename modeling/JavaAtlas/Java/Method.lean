import JavaAtlas.Java.AnnotationUse
import JavaAtlas.Lexical.Boundary

/-! Methods of a unit, found by the shape of a declaration with a body. Constructors have that
shape too; control flow and instance creation are left out by name. -/
namespace JavaAtlas.Method
open Pattern

def isTypeChar (c : Char) : Bool :=
  Text.isWord c || c == '<' || c == '>' || c == '[' || c == ']' || c == ',' || c == '?' || c == '.'

def spaces : Pattern := longest (char ' ')

def typeToken : Pattern :=
  seq (longest1 (one isTypeChar)) (longest1 (one fun c => c == ' ' || c == '\t'))

def noParenthesis : Pattern := one fun c => c != '(' && c != ')'

/-- Parameters, with parentheses nested at most once. -/
def parameters : Pattern :=
  longest (either noParenthesis (sequence [char '(',longest noParenthesis,char ')']))

def pattern : Pattern :=
  sequence [
    choice [word "public",word "protected",word "private",word "static",one Text.isBlank],
    longest1 (char ' '),typeToken,upTo 9 typeToken,capture 1 (longest1 (one Text.isWord)),spaces,
    char '(',parameters,char ')',spaces,
    optional (seq (word "throws ")
      (longest1 (one fun c => Text.isWord c || c == '.' || c == ',' || Text.isBlank c))),
    char '{']

def javadocPattern : Pattern :=
  sequence [word "/**",notAhead (char '/'),capture 1 (shortest (one fun _ => true)),word "*/"]

def controlNames : List String :=
  ["if","for","while","switch","catch","synchronized","return","new","else","do","try"]

def reach : Nat := 100

/-- Documentation comments of the content. One that survives the masking of comments is inside a
literal and does not count. -/
def javadocs (content masked : List Char) : List Match :=
  (javadocPattern.findAll content).filter fun found => masked[found.start]? != some '/'

/-- The interior of the last comment between the start of the preamble and the declaration that
ends within reach of the latter. -/
def attachedJavadoc (blocks : List Match) (preamble declaration : Nat) : String :=
  let before := (blocks.filter fun block => preamble ≤ block.start).takeWhile fun block =>
    block.stop ≤ declaration
  match (before.filter fun block => declaration - reach < block.stop).getLast? with
  | some block => String.ofList (Text.trim (block.captured 1))
  | none => ""

/-- The text from the start of the name's line to the body, in one line. -/
def signatureOf (masked : List Char) (nameStart stop : Nat) : String :=
  let line := Text.afterLast '\n' (masked.take nameStart) ++ Text.slice masked nameStart stop
  String.ofList (Text.dropEndWhile (fun c => c == '{' || c == ' ') (Text.singleSpaced line))

/-- The method of a match in the text with comments and literals masked, unless the name tells
that there is none. -/
def ofMatch (blocks : List Match) (masked structural : List Char) (found : Match) :
    Option Method :=
  (found.capture? 1).bind fun name =>
    let created := (Text.words (Text.slice structural found.start name.start)).getLast?
    if controlNames.contains (String.ofList name.text) || created == some "new".toList then none
    else
      let declaration := found.start + (found.text.takeWhile Text.isBlank).length
      let preamble := Lexical.declarationStart structural declaration
      some {
        name := String.ofList name.text
        signature := signatureOf masked name.start found.stop
        javadoc := attachedJavadoc blocks preamble declaration
        annotations := AnnotationUse.readAll (Text.slice masked preamble found.stop) }

def readAll (content : List Char) : List Method :=
  let masked := Lexical.maskComments content
  let structural := Lexical.maskLiterals masked
  (pattern.findAll structural).filterMap (ofMatch (javadocs content masked) masked structural)

end JavaAtlas.Method
