import JavaAtlas.Text.Words

/-! Integers written in text: blanks around, one sign, decimal digits of any script, and single
underscores between digits. -/
namespace JavaAtlas.Text

/-- Blanks that may surround an integer: the information separators are not among them. -/
def isMargin (c : Char) : Bool :=
  isBlank c && !(28 ≤ c.toNat && c.toNat ≤ 31)

/-- The digits of a numeral in which an underscore may stand between two digits. -/
def numeralDigits : List Char → Option (List Nat)
  | [] => none
  | c :: rest =>
    match digitValue? c with
    | none => none
    | some d =>
      match rest with
      | [] => some [d]
      | '_' :: rest => (numeralDigits rest).map (d :: ·)
      | next => (numeralDigits next).map (d :: ·)

def numeralLimit : Nat := 4300

def natural? (text : List Char) : Option Nat :=
  (numeralDigits text).bind fun digits =>
    if digits.length ≤ numeralLimit then some (digits.foldl (fun n d => 10 * n + d) 0) else none

def integer? (text : List Char) : Option Int :=
  match trimWhile isMargin text with
  | '-' :: rest => (natural? rest).map fun n => -(n : Int)
  | '+' :: rest => (natural? rest).map Int.ofNat
  | rest => (natural? rest).map Int.ofNat

def ofInt (n : Int) : List Char :=
  match n with
  | .ofNat k => Nat.toDigits 10 k
  | .negSucc k => '-' :: Nat.toDigits 10 (k + 1)

end JavaAtlas.Text
