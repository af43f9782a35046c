import JavaAtlas.CommandLine.Run

/-! The command as a program. It takes a picture of the folder to be analysed, runs the command on
the picture and writes back the files that are new in it. There is no assistant to be reached
from here, so every request to it fails and signatures take its part. -/

namespace JavaAtlas.Program

/-- Puts what is at an absolute path into the picture, and what lies below it. Only the bytes of
possible sources are read; a link to a directory is not followed. -/
partial def picture (disk : Disk) (place : Place) : IO Disk := do
  let path := (← IO.currentDir) / place.path.text
  let add (node : Node) : Disk := ⟨disk.nodes.insert place node⟩
  if ← path.isDir then
    let mut disk := add .directory
    for entry in ← path.readDir do
      let linked := (← entry.path.symlinkMetadata).type == .symlink
      if !(linked && (← entry.path.isDir)) then
        disk ← picture disk (place ++ [entry.fileName])
    return disk
  else if !(← path.pathExists) then return disk
  else if (Discovery.languageOf? (Path.suffix (place.getLast?.getD ""))).isSome then
    return add (.file (← IO.FS.readBinFile path).toList)
  else return add (.file [])

def pictureWay (disk : Disk) (place : Place) : IO Disk := do
  let mut disk := disk
  for length in List.range (place.length + 1) do
    let above : Place := place.take length
    let path := (← IO.currentDir) / above.path.text
    if !above.isEmpty && (disk.nodes.get? above).isNone then
      if ← path.isDir then disk := ⟨disk.nodes.insert above .directory⟩
      else if ← path.pathExists then disk := ⟨disk.nodes.insert above (.file [])⟩
  return disk

def writeBack (before after : Disk) : IO Unit := do
  for (place,node) in after.nodes.entries do
    if before.nodes.get? place != some node then
      let path := (← IO.currentDir) / place.path.text
      match node with
      | .directory => IO.FS.createDirAll path
      | .file bytes => IO.FS.writeBinFile path ⟨bytes.toArray⟩

def variableNames : List String :=
  ["CODE_ANALYSIS_PATH","JCODESCAN_OUTPUT_DIR","JCODESCAN_MAX_WORKERS","JCODESCAN_MAX_FILES",
    "JCODESCAN_LOG_LEVEL","ANTHROPIC_API_KEY"]

def readEnvironment : IO Environment := do
  let mut environment := []
  for name in variableNames do
    if let some value ← IO.getEnv name then environment := environment ++ [(name,value)]
  return environment

def usage : String :=
  "usage: java-atlas [-h] [--output-dir DIR] [--workers N] [--ai-summaries]\n" ++
  "                  [--log-level LEVEL] source_dir [specific_class]"

end JavaAtlas.Program

open JavaAtlas Program

def main (arguments : List String) : IO UInt32 := do
  let here := (← IO.currentDir).components.filter fun part => !part.isEmpty
  let world : World :=
    { here
      home := (← IO.getEnv "HOME").getD "/"
      environment := ← readEnvironment }
  match CommandLine.parse world.settings arguments with
  | .help => IO.println usage; return 0
  | .misuse => IO.eprintln usage; return 2
  | .run request =>
    let folder := match world.expandHome (Path.ofText request.sourceDir) with
      | .ok path => path.place here
      | .error _ => here
    let output := (Path.ofText (request.outputDir.getD world.settings.outputDir)).place here
    let mut disk ← pictureWay {} here
    disk ← pictureWay disk folder
    disk ← picture disk folder
    disk ← pictureWay disk output
    disk ← picture disk (output ++ ["method-details"])
    let (outcome,after) := (CommandLine.analyze request).run.run {world with disk}
    writeBack disk after.disk
    match outcome with
    | .ok exit =>
      if exit == .failure then IO.eprintln ("No source files found in " ++ request.sourceDir)
      return exit.code.toUInt32
    | .error cause => IO.eprintln cause.message; return 1
