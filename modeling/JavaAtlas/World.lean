import JavaAtlas.Disk.Basic
import JavaAtlas.Json.Reader
import JavaAtlas.Json.Shape
import JavaAtlas.Settings
import JavaAtlas.Summary.Assistant
import JavaAtlas.Text.Utf8

/-! What an analysis runs in: a disk seen from a directory, the environment, an assistant and a
clock. Actions change it and may fail; what they changed before a failure stays changed. -/
namespace JavaAtlas

structure World where
  disk : Disk := {}
  /-- The directory from which relative paths are seen. -/
  here : Place := []
  home : String := "/"
  environment : Environment := []
  assistant : Assistant := {}
  clock : String := ""
  deriving DecidableEq

inductive Fault where
  | disk (fault : Disk.Fault)
  | encoding (problem : Text.Utf8.Problem)
  | document (problem : Json.Problem)
  | shape (mismatch : Json.Mismatch)
  | noHome

def Fault.message : Fault → String
  | .disk fault => fault.message
  | .encoding problem => problem.message
  | .document problem => problem.message
  | .shape mismatch => mismatch.message
  | .noHome => "Could not determine home directory."

abbrev Action (α : Type) := ExceptT Fault (StateM World) α

namespace Action

def makeDirectories (path : Path) : Action Unit := do
  let world ← get
  let (outcome,disk) := world.disk.makeDirectories world.here path
  set {world with disk}
  match outcome with
  | .ok _ => return ()
  | .error fault => throw (.disk fault)

def write (path : Path) (content : String) : Action Unit := do
  let world ← get
  match world.disk.write world.here path (Text.Utf8.encode content.toList) with
  | .ok disk => set {world with disk}
  | .error fault => throw (.disk fault)

def removeFile (path : Path) : Action Unit := do
  let world ← get
  match world.disk.removeFile world.here path with
  | .ok disk => set {world with disk}
  | .error fault => throw (.disk fault)

def readDocument (path : Path) : Action Json := do
  let world ← get
  match world.disk.read world.here path with
  | .error fault => throw (.disk fault)
  | .ok bytes =>
    match Text.Utf8.decode bytes with
    | .error problem => throw (.encoding problem)
    | .ok text =>
      match Json.read (Text.Utf8.unifyLineBreaks text) with
      | .error problem => throw (.document problem)
      | .ok value => return value

def find? (path : Path) : Action (Option Node) := do
  let world ← get
  match world.disk.find? world.here path with
  | .error fault => throw (.disk fault)
  | .ok node => return node

def isDirectory (path : Path) : Action Bool := do
  return (← find? path) == some .directory

def ofShape {α : Type} (result : Except Json.Mismatch α) : Action α :=
  match result with
  | .ok value => return value
  | .error mismatch => throw (.shape mismatch)

end Action

namespace World

def settings (world : World) : Settings := .ofEnvironment world.environment

/-- The home directory, unless its name starts with a tilde itself. -/
def homePath (world : World) : Except Fault Path :=
  if world.home.toList.all (· == '/') then .ok (Path.ofText "/")
  else if world.home.toList.head? == some '~' then .error .noHome
  else .ok (Path.ofText world.home)

/-- A path in which the first part, if it is a tilde, stands for the home directory. The home of
another user is not known. -/
def expandHome (world : World) (path : Path) : Except Fault Path :=
  match path.slashes, path.parts with
  | 0, first :: rest =>
    if first == "~" then world.homePath.map fun home => home.join ⟨0,rest⟩
    else if first.toList.head? == some '~' then
      .error (if first.toList.contains '\x00' then .disk ⟨.nullCharacter,path⟩ else .noHome)
    else .ok path
  | _, _ => .ok path

end World

namespace Action

def expandHome (path : Path) : Action Path := do
  match (← get).expandHome path with
  | .ok expanded => return expanded
  | .error fault => throw fault

def resolve (path : Path) : Action Place := do
  let expanded ← expandHome path
  if expanded.hasNull then throw (.disk ⟨.nullCharacter,expanded⟩)
  else return expanded.place (← get).here

end Action

end JavaAtlas
