import JavaAtlas.Disk.Path
import JavaAtlas.OrderedMap
import JavaAtlas.Text.Integer
import JavaAtlas.Text.Quoted

/-! A disk: files and directories at their places. Every operation walks a path step by step, and
a step needs a directory to start from. Names and paths may not be too long, and no path that
holds a null character is followed at all. -/
namespace JavaAtlas

inductive Node where
  | directory
  | file (bytes : List UInt8)
  deriving DecidableEq

structure Disk where
  nodes : OrderedMap Place Node := .empty
  deriving DecidableEq

namespace Disk

inductive Cause where
  | missing
  | alreadyThere
  | notDirectory
  | isDirectory
  | nameTooLong
  | nullCharacter
  deriving DecidableEq, Repr

/-- The number of a cause; a null character is found before the disk is asked and has none. -/
def Cause.code : Cause → Nat
  | .missing => 2
  | .alreadyThere => 17
  | .notDirectory => 20
  | .isDirectory => 21
  | .nameTooLong => 36
  | .nullCharacter => 0

def Cause.text : Cause → String
  | .missing => "No such file or directory"
  | .alreadyThere => "File exists"
  | .notDirectory => "Not a directory"
  | .isDirectory => "Is a directory"
  | .nameTooLong => "File name too long"
  | .nullCharacter => "embedded null byte"

structure Fault where
  cause : Cause
  path : Path
  deriving DecidableEq, Repr

def Fault.message (fault : Fault) : String :=
  if fault.cause == .nullCharacter then fault.cause.text
  else "[Errno " ++ String.ofList (Text.ofInt fault.cause.code) ++ "] " ++ fault.cause.text ++ ": " ++
    String.ofList (Text.quoted fault.path.text.toList)

def nameLimit : Nat := 255

def pathLimit : Nat := 4095

def node? (disk : Disk) (place : Place) : Option Node :=
  if place.isEmpty then some .directory else disk.nodes.get? place

/-- The place reached from `start` by the parts of a path, the last of which need not be there. -/
def walk (disk : Disk) : Place → List String → Except Cause Place
  | start, [] => .ok start
  | start, part :: rest =>
    match disk.node? start with
    | none => .error .missing
    | some (.file _) => .error .notDirectory
    | some .directory =>
      if part == ".." then walk disk start.dropLast rest
      else if nameLimit < part.utf8ByteSize then .error .nameTooLong
      else walk disk (start ++ [part]) rest

def locate (disk : Disk) (here : Place) (path : Path) : Except Cause Place :=
  if path.hasNull then .error .nullCharacter
  else if pathLimit < path.text.utf8ByteSize then .error .nameTooLong
  else disk.walk (if path.slashes == 0 then here else []) path.parts

/-- What a path leads to, if anything. Only a name that is too long makes the question fail. -/
def find? (disk : Disk) (here : Place) (path : Path) : Except Fault (Option Node) :=
  match disk.locate here path with
  | .ok place => .ok (disk.node? place)
  | .error .nameTooLong => .error ⟨.nameTooLong,path⟩
  | .error _ => .ok none

def isDirectory (disk : Disk) (here : Place) (path : Path) : Except Fault Bool :=
  (disk.find? here path).map (· == some .directory)

def read (disk : Disk) (here : Place) (path : Path) : Except Fault (List UInt8) :=
  match disk.locate here path with
  | .error cause => .error ⟨cause,path⟩
  | .ok place =>
    match disk.node? place with
    | none => .error ⟨.missing,path⟩
    | some .directory => .error ⟨.isDirectory,path⟩
    | some (.file bytes) => .ok bytes

def write (disk : Disk) (here : Place) (path : Path) (bytes : List UInt8) : Except Fault Disk :=
  match disk.locate here path with
  | .error cause => .error ⟨cause,path⟩
  | .ok place =>
    match disk.node? place with
    | some .directory => .error ⟨.isDirectory,path⟩
    | _ => .ok ⟨disk.nodes.insert place (.file bytes)⟩

def removeTree (disk : Disk) (place : Place) : Disk :=
  ⟨⟨disk.nodes.entries.filter fun entry => !place.isPrefixOf entry.1,
    disk.nodes.distinct.sublist (List.filter_sublist.map _)⟩⟩

def removeFile (disk : Disk) (here : Place) (path : Path) : Except Fault Disk :=
  match disk.locate here path with
  | .error cause => .error ⟨cause,path⟩
  | .ok place =>
    match disk.node? place with
    | none => .error ⟨.missing,path⟩
    | some .directory => .error ⟨.isDirectory,path⟩
    | some (.file _) => .ok (disk.removeTree place)

def makeOne (disk : Disk) (here : Place) (path : Path) : Except Cause Disk :=
  match disk.locate here path with
  | .error cause => .error cause
  | .ok place =>
    match disk.node? place with
    | some _ => .error .alreadyThere
    | none => .ok ⟨disk.nodes.insert place .directory⟩

/-- The outcome of a directory that could not be made: well if it is there already. -/
def settle (disk : Disk) (here : Place) (path : Path) (cause : Cause) : Except Fault Unit :=
  match disk.locate here path with
  | .ok place => if disk.node? place == some .directory then .ok () else .error ⟨cause,path⟩
  | .error _ => .error ⟨cause,path⟩

/-- Makes a directory, given by its parts in reverse, and those above it that are missing. What
was made before a failure stays. -/
def makeFrom (here : Place) (slashes : Nat) : List String → Disk → Except Fault Unit × Disk
  | reversed, disk =>
    let path : Path := ⟨slashes,reversed.reverse⟩
    match disk.makeOne here path with
    | .ok made => (.ok (),made)
    | .error .missing =>
      match reversed with
      | [] => (.error ⟨.missing,path⟩,disk)
      | _ :: above =>
        match makeFrom here slashes above disk with
        | (.error fault,made) => (.error fault,made)
        | (.ok _,made) =>
          match made.makeOne here path with
          | .ok done => (.ok (),done)
          | .error cause => (made.settle here path cause,made)
    | .error cause => (disk.settle here path cause,disk)

def makeDirectories (disk : Disk) (here : Place) (path : Path) : Except Fault Unit × Disk :=
  makeFrom here path.slashes path.parts.reverse disk

def filesBelow (disk : Disk) (place : Place) : List (List String × List UInt8) :=
  disk.nodes.entries.filterMap fun entry =>
    match entry.2 with
    | .file bytes =>
      if place.isPrefixOf entry.1 && place.length < entry.1.length then
        some (entry.1.drop place.length,bytes)
      else none
    | .directory => none

/-- All that lies below a place, by the parts that lead there from it. -/
def below (disk : Disk) (place : Place) : List (List String) :=
  disk.nodes.entries.filterMap fun entry =>
    if place.isPrefixOf entry.1 && place.length < entry.1.length then
      some (entry.1.drop place.length)
    else none

def names (disk : Disk) (place : Place) : List String :=
  disk.nodes.entries.filterMap fun entry =>
    if entry.1.dropLast == place && !entry.1.isEmpty then entry.1.getLast? else none

end Disk

end JavaAtlas
