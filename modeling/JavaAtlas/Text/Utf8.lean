import JavaAtlas.Text.Integer
import JavaAtlas.Text.Quoted

/-! UTF-8. Bytes that are no character form defects, each as long as the bytes that still could
have begun one. Source files are read with every defect replaced; stored files must have none. -/
namespace JavaAtlas.Text.Utf8

inductive Defect where
  | badStart
  | badContinuation
  | cutShort
  deriving DecidableEq, Repr

def Defect.reason : Defect → String
  | .badStart => "invalid start byte"
  | .badContinuation => "invalid continuation byte"
  | .cutShort => "unexpected end of data"

inductive Piece where
  | char (c : Char) (length : Nat)
  | defect (kind : Defect) (length : Nat)
  deriving DecidableEq, Repr

def Piece.length : Piece → Nat
  | .char _ length => length
  | .defect _ length => length

/-- Reads the `missing` bytes that continue a character, the first of them from `low` to `high`. -/
def continued (low high value length : Nat) : Nat → List UInt8 → Piece
  | 0, _ => .char (Char.ofNat value) length
  | _ + 1, [] => .defect .cutShort length
  | missing + 1, byte :: rest =>
    if low ≤ byte.toNat && byte.toNat ≤ high then
      continued 0x80 0xBF (64 * value + (byte.toNat - 0x80)) (length + 1) missing rest
    else .defect .badContinuation length

def Piece.first (byte : UInt8) (rest : List UInt8) : Piece :=
  let b := byte.toNat
  if b < 0x80 then .char (Char.ofNat b) 1
  else if 0xC2 ≤ b && b ≤ 0xDF then continued 0x80 0xBF (b - 0xC0) 1 1 rest
  else if b == 0xE0 then continued 0xA0 0xBF 0 1 2 rest
  else if b == 0xED then continued 0x80 0x9F 0xD 1 2 rest
  else if 0xE1 ≤ b && b ≤ 0xEF then continued 0x80 0xBF (b - 0xE0) 1 2 rest
  else if b == 0xF0 then continued 0x90 0xBF 0 1 3 rest
  else if 0xF1 ≤ b && b ≤ 0xF3 then continued 0x80 0xBF (b - 0xF0) 1 3 rest
  else if b == 0xF4 then continued 0x80 0x8F 4 1 3 rest
  else .defect .badStart 1

/-- Pieces of the bytes after the first `skip`, which belong to a piece already in `done`. -/
def piecesFrom : Nat → List UInt8 → List Piece → List Piece
  | _, [], done => done.reverse
  | skip + 1, _ :: rest, done => piecesFrom skip rest done
  | 0, byte :: rest, done =>
    let piece := Piece.first byte rest
    piecesFrom (piece.length - 1) rest (piece :: done)

def pieces (bytes : List UInt8) : List Piece := piecesFrom 0 bytes []

def decodeLenient (bytes : List UInt8) : List Char :=
  (pieces bytes).map fun
    | .char c _ => c
    | .defect _ _ => '\uFFFD'

/-- The first defect of some bytes, and where it stands. -/
structure Problem where
  kind : Defect
  start : Nat
  length : Nat
  byte : UInt8
  deriving DecidableEq, Repr

def Problem.message (problem : Problem) : String :=
  let start := String.ofList (ofInt problem.start)
  let place :=
    if problem.length ≤ 1 then
      "byte 0x" ++ String.ofList (hexDigits 2 problem.byte.toNat) ++ " in position " ++ start
    else
      "bytes in position " ++ start ++ "-" ++
        String.ofList (ofInt (problem.start + problem.length - 1 : Nat))
  "'utf-8' codec can't decode " ++ place ++ ": " ++ problem.kind.reason

def firstProblem? (bytes : List UInt8) : Nat → List Piece → Option Problem
  | _, [] => none
  | start, .char _ length :: rest => firstProblem? bytes (start + length) rest
  | start, .defect kind length :: _ => some ⟨kind,start,length,(bytes[start]?).getD 0⟩

def decode (bytes : List UInt8) : Except Problem (List Char) :=
  match firstProblem? bytes 0 (pieces bytes) with
  | some problem => .error problem
  | none => .ok (decodeLenient bytes)

def encode (text : List Char) : List UInt8 :=
  text.flatMap String.utf8EncodeChar

/-- Line breaks in one form: a carriage return, alone or before a line feed, becomes a line
feed. -/
def unifyLineBreaks (text : List Char) : List Char :=
  (text.foldl (fun (state : Bool × List Char) c =>
    if c == '\r' then (true,'\n' :: state.2)
    else if c == '\n' && state.1 then (false,state.2)
    else (false,c :: state.2)) (false,[])).2.reverse

end JavaAtlas.Text.Utf8
