import JavaAtlas.Discovery
import JavaAtlas.Java.Extraction
import JavaAtlas.Model.Resolve
import JavaAtlas.Text.Utf8

/-! The model of a list of files. A file that cannot be read costs a warning and nothing else. -/
namespace JavaAtlas.Analysis

def readSource (disk : Disk) (here : Place) (path : Path) :
    Except Disk.Fault (Option Extraction) :=
  (disk.read here path).map fun bytes =>
    (Discovery.languageOf? (Path.suffix path.name)).bind fun language =>
      Extraction.read? (Text.Utf8.unifyLineBreaks (Text.Utf8.decodeLenient bytes)) path.text
        language

def merge (disk : Disk) (here : Place) (model : Model) (path : Path) : Model :=
  match readSource disk here path with
  | .error fault => model.warn ("Failed to read " ++ path.text ++ ": " ++ fault.message)
  | .ok none => model
  | .ok (some extraction) =>
    match model.add extraction with
    | .ok (next,_) => next
    | .error _ => model

def ofFiles (disk : Disk) (here : Place) (paths : List Path) : Model :=
  let merged := paths.foldl (merge disk here) {}
  match merged.resolve with
  | .ok resolved => resolved
  | .error _ => merged

def ofPaths (disk : Disk) (here : Place) (paths : List Path) : Except Disk.Fault Model :=
  match paths.find? Path.hasNull with
  | some path => .error ⟨.nullCharacter,path⟩
  | none => .ok (ofFiles disk here paths)

end JavaAtlas.Analysis
