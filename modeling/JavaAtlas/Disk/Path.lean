import JavaAtlas.Text.Words

/-! Paths as they are written. Repeated slashes and single dots mean nothing and are dropped when
a path is read; a parent step is kept, since only the disk can tell where it leads. -/
namespace JavaAtlas

structure Path where
  /-- Leading slashes: none for a relative path, two where exactly two are written, else one. -/
  slashes : Nat
  parts : List String
  deriving DecidableEq, Repr

namespace Path

def ofText (text : String) : Path where
  slashes :=
    match (text.toList.takeWhile (· == '/')).length with
    | 0 => 0
    | 2 => 2
    | _ => 1
  parts := ((text.toList.splitOn '/').map String.ofList).filter fun part =>
    !part.isEmpty && part != "."

def text (path : Path) : String :=
  if path.slashes == 0 && path.parts.isEmpty then "."
  else String.ofList (List.replicate path.slashes '/') ++ Text.join "/" path.parts

def hasNull (path : Path) : Bool := path.parts.any fun part => part.toList.contains '\x00'

/-- A path below another; an absolute one stands alone. -/
def join (path below : Path) : Path :=
  if below.slashes == 0 then {path with parts := path.parts ++ below.parts} else below

def child (path : Path) (below : String) : Path := path.join (ofText below)

def name (path : Path) : String := path.parts.getLast?.getD ""

/-- The extension of a name with its dot. A dot at either end starts none. -/
def suffix (name : String) : String :=
  let tail := Text.afterLast '.' name.toList
  if (Text.beforeLast '.' name.toList).isEmpty || tail.isEmpty then ""
  else String.ofList ('.' :: tail)

end Path

abbrev Place := List String

def Place.path (place : Place) : Path := ⟨1,place⟩

/-- The place that a path means by its text alone, seen from `here`. -/
def Path.place (here : Place) (path : Path) : Place :=
  path.parts.foldl (fun place part => if part == ".." then place.dropLast else place ++ [part])
    (if path.slashes == 0 then here else [])

end JavaAtlas
