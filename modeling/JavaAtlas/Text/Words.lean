import JavaAtlas.Text.CharClass

/-! Trimming, splitting and joining. Characters are handled as lists; `String` appears where
records and reports are made of whole pieces. -/
namespace JavaAtlas.Text

def dropEndWhile (p : Char → Bool) (text : List Char) : List Char :=
  (text.reverse.dropWhile p).reverse

def trimWhile (p : Char → Bool) (text : List Char) : List Char :=
  dropEndWhile p (text.dropWhile p)

def trim (text : List Char) : List Char :=
  trimWhile isBlank text

/-- The longest runs of characters that are not blank. -/
def words (text : List Char) : List (List Char) :=
  (text.splitOnP isBlank).filter fun word => !word.isEmpty

def lines (text : List Char) : List (List Char) :=
  text.splitOn '\n'

/-- Every run of blanks becomes one space, and none is left at the ends. -/
def singleSpaced (text : List Char) : List Char :=
  [' '].intercalate (words text)

def slice (text : List Char) (start stop : Nat) : List Char :=
  (text.take stop).drop start

/-- Whether `part` occurs in the text as a whole. -/
def occursIn (part : List Char) : List Char → Bool
  | [] => part.isEmpty
  | c :: rest => part.isPrefixOf (c :: rest) || occursIn part rest

def join (separator : String) (pieces : List String) : String :=
  String.ofList (separator.toList.intercalate (pieces.map String.toList))

def afterLast (mark : Char) (text : List Char) : List Char :=
  (text.reverse.takeWhile (· != mark)).reverse

def beforeLast (mark : Char) (text : List Char) : List Char :=
  ((text.reverse.dropWhile (· != mark)).drop 1).reverse

def clip (limit : Nat) (text : String) : String :=
  String.ofList (text.toList.take limit)

end JavaAtlas.Text
