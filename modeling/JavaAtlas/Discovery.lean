import JavaAtlas.Disk.Basic

/-! Which files of a folder are sources: those of a known language that are not too large and do
not lie below a directory of built or foreign files. -/
namespace JavaAtlas.Discovery

def skipped : List String :=
  ["node_modules/","vendor/",".git/",".svn/",".hg/","target/","build/","out/","bin/",".gradle/",
    ".idea/","generated/","generated-sources/"]

/-- Whether a path, written with either kind of slash, passes through a skipped directory. -/
def isSkipped (path : String) : Bool :=
  let path := path.toList.map fun c => if c == '\\' then '/' else c
  skipped.any fun directory =>
    directory.toList.isPrefixOf path || Text.occursIn ('/' :: directory.toList) path

def languageOf? (suffix : String) : Option String :=
  if suffix == ".java" then some "java" else none

/-- The first items up to a limit; a negative limit leaves out that many at the end. -/
def takeUpTo {α : Type} (limit : Int) (items : List α) : List α :=
  if limit < 0 then items.take (items.length + limit).toNat else items.take limit.toNat

def defaultMaxFiles : Int := 5000

def defaultMaxSize : Int := 1048576

def isSource (maxSize : Int) (file : List String × List UInt8) : Bool :=
  !isSkipped (Text.join "/" file.1) &&
    (languageOf? (Path.suffix (file.1.getLast?.getD ""))).isSome && file.2.length ≤ maxSize

def comesBefore : List String → List String → Bool
  | [], _ => true
  | _ :: _, [] => false
  | first :: firstRest, second :: secondRest =>
    if first == second then comesBefore firstRest secondRest else decide (first ≤ second)

/-- Sources of a folder in the order of their paths, name by name, up to a number of them. -/
def sources (disk : Disk) (here : Place) (folder : Path) (maxFiles maxSize : Int) : List Path :=
  match disk.locate here folder with
  | .error _ => []
  | .ok place =>
    if disk.node? place == some .directory then
      let found := ((disk.filesBelow place).filter (isSource maxSize)).map Prod.fst
      let sorted := found.mergeSort comesBefore
      let kept := if maxFiles < sorted.length then takeUpTo maxFiles sorted else sorted
      kept.map fun parts => folder.join ⟨0,parts⟩
    else []

/-- Looks at the folder and at all that lies below it. A path that is too long makes it fail,
whether there is a source at its end or not. -/
def lookThrough (disk : Disk) (here : Place) (folder : Path) : Except Disk.Fault Unit := do
  discard (disk.find? here folder)
  match disk.locate here folder with
  | .error _ => return ()
  | .ok place =>
    let paths := (disk.below place).map fun parts => folder.join ⟨0,parts⟩
    match paths.find? fun path => Disk.pathLimit < path.text.utf8ByteSize with
    | some path => throw ⟨.nameTooLong,path⟩
    | none => return ()

def sourcesAt (disk : Disk) (here : Place) (folder : Path) (maxFiles maxSize : Int) :
    Except Disk.Fault (List Path) :=
  (lookThrough disk here folder).map fun _ => sources disk here folder maxFiles maxSize

/-- Whether a file name ends in the file name of the class, with no line break before it. -/
def belongsTo (className name : String) : Bool :=
  let wanted := className.toList ++ ".java".toList
  wanted.isSuffixOf name.toList &&
    !(name.toList.take (name.length - wanted.length)).contains '\n'

def classSources (disk : Disk) (here : Place) (folder : Path) (className : String) : List Path :=
  (sources disk here folder defaultMaxFiles defaultMaxSize).filter fun path =>
    belongsTo className path.name

def classSourcesAt (disk : Disk) (here : Place) (folder : Path) (className : String) :
    Except Disk.Fault (List Path) :=
  (lookThrough disk here folder).map fun _ => classSources disk here folder className

end JavaAtlas.Discovery
