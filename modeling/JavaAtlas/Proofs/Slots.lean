import JavaAtlas.Proofs.Deposits

/-! Names and files of a store. An analysis lies in the file that joins owner and name with a
hyphen, so that what is loaded is what was last done under any pair of names with that file. -/
namespace JavaAtlas

namespace Disk
variable {disk next : Disk} {here place other : Place} {path : Path} {bytes : List UInt8}

/-- All that is there lies in directories. -/
def Grounded (disk : Disk) : Prop :=
  ∀ place part, disk.node? (place ++ [part]) ≠ none → disk.node? place = some .directory

theorem Grounded.above (grounded : disk.Grounded) (parts : List String) {part : String}
    (there : disk.node? (place ++ part :: parts) ≠ none) : disk.node? place = some .directory := by
  induction parts using List.reverseRecOn generalizing part with
  | nil => exact grounded place part there
  | append_singleton parts last ih =>
    have directory := grounded (place ++ part :: parts) last (by simpa using there)
    exact ih (by rw [directory]; exact Option.some_ne_none _)

/-- Nothing lies below a file. -/
theorem Grounded.eq_of_prefix (grounded : disk.Grounded) (node : disk.node? place = some (.file bytes))
    (below : place <+: other) (there : disk.node? other ≠ none) : other = place := by
  obtain ⟨parts,rfl⟩ := below
  cases parts with
  | nil => exact List.append_nil place
  | cons part parts =>
    have directory := grounded.above parts there
    rw [node] at directory
    cases directory

theorem node?_removeTree (grounded : disk.Grounded) (node : disk.node? place = some (.file bytes))
    (other : Place) :
    (disk.removeTree place).node? other = if other = place then none else disk.node? other := by
  cases other with
  | nil =>
    have inside : [] ≠ place := by
      rintro rfl
      cases node
    rw [if_neg inside]
    rfl
  | cons first rest =>
    have inner (any : Disk) : any.node? (first :: rest) = any.nodes.get? (first :: rest) := rfl
    apply Option.ext
    intro found
    rw [inner,OrderedMap.get?_eq_some,removeTree,List.mem_filter]
    split
    · next same => simp [same]
    · next apart =>
      rw [inner,OrderedMap.get?_eq_some,and_iff_left_iff_imp]
      intro member
      have there : disk.node? (first :: rest) ≠ none := by
        rw [inner,OrderedMap.get?_eq_some.mpr member]
        exact Option.some_ne_none _
      rw [Bool.not_eq_true',← Bool.not_eq_true,List.isPrefixOf_iff_prefix]
      exact fun below => apart (grounded.eq_of_prefix node below there)

theorem Grounded.removeTree (grounded : disk.Grounded)
    (node : disk.node? place = some (.file bytes)) : (disk.removeTree place).Grounded := by
  intro above part there
  rw [node?_removeTree grounded node] at there ⊢
  split at there
  · exact absurd rfl there
  · have directory := grounded above part there
    rw [if_neg,directory]
    rintro rfl
    rw [node] at directory
    cases directory

theorem keeps_removeTree (grounded : disk.Grounded)
    (node : disk.node? place = some (.file bytes)) :
    disk.Keeps (· ≠ place) (disk.removeTree place) := by
  constructor
  · intro other directory
    rw [node?_removeTree grounded node,if_neg,directory]
    rintro rfl
    rw [node] at directory
    cases directory
  · intro other apart
    exact .inl (by rw [node?_removeTree grounded node,if_neg apart])

theorem Grounded.withFile {name : String} (grounded : disk.Grounded)
    (directory : disk.node? place = some .directory)
    (outside : disk.node? (place ++ [name]) ≠ some .directory) :
    (disk.withFile (place ++ [name]) bytes).Grounded := by
  have keeps : disk.Keeps (· ≠ place ++ [name]) (disk.withFile (place ++ [name]) bytes) :=
    keeps_withFile outside (by simp)
  intro above part there
  apply keeps.directories
  by_cases same : above ++ [part] = place ++ [name]
  · rwa [(List.append_inj' same rfl).1]
  · rw [node?_withFile_of_ne same] at there
    exact grounded above part there

theorem removeFile_iff : disk.removeFile here path = .ok next ↔
    ∃ place bytes, disk.locate here path = .ok place ∧ disk.node? place = some (.file bytes) ∧
      next = disk.removeTree place := by
  rw [removeFile]
  cases disk.locate here path with
  | error cause => simp
  | ok place =>
    dsimp only
    cases node : disk.node? place with
    | none => simp [node]
    | some found => cases found <;> simp [node,eq_comm]

/-- Where the first parts of a path lead, the others are followed from there. -/
theorem walk_append {start middle : Place} {parts : List String} (rest : List String)
    (reached : disk.walk start parts = .ok middle) :
    disk.walk start (parts ++ rest) = disk.walk middle rest := by
  induction parts generalizing start with
  | nil =>
    cases reached
    rfl
  | cons part parts ih =>
    obtain ⟨directory,short,further⟩ := walk_cons_iff.mp reached
    rw [List.cons_append,walk,directory]
    dsimp only
    rw [← ih further,Place.step]
    rcases short with above | short
    · rw [if_pos (by simpa using above),if_pos (by simpa using above)]
    · rw [if_neg (Nat.not_lt.mpr short)]
      split <;> rfl

end Disk

theorem Action.run_removeFile (path : Path) (world : World) :
    (removeFile path).run.run world =
      match world.disk.removeFile world.here path with
      | .ok disk => (.ok (),{world with disk})
      | .error fault => (.error (.disk fault),world) := by
  rw [removeFile,run_bind,run_get]
  dsimp only
  cases world.disk.removeFile world.here path <;> rfl

namespace Store

/-- Two names under which an analysis is kept. -/
structure Key where
  owner : String
  name : String
  whole : '/' ∉ owner.toList ∧ '\x00' ∉ owner.toList
  solid : '/' ∉ name.toList ∧ '\x00' ∉ name.toList
  deriving DecidableEq

namespace Key
variable {key other : Key}

def file (key : Key) : String := key.owner ++ "-" ++ key.name ++ ".json"

theorem toList_file (key : Key) :
    key.file.toList = (key.owner.toList ++ '-' :: key.name.toList) ++ ".json".toList := by
  simp [file,String.toList_append]

/-- Two pairs of names share a file if they are joined to the same text. -/
theorem file_eq_iff : key.file = other.file ↔
    key.owner.toList ++ '-' :: key.name.toList = other.owner.toList ++ '-' :: other.name.toList := by
  rw [← String.toList_inj,toList_file,toList_file,List.append_cancel_right_eq]

/-- Owners without hyphens have files of their own. -/
theorem file_injective (whole : '-' ∉ key.owner.toList) (apart : '-' ∉ other.owner.toList)
    (same : key.file = other.file) : key = other := by
  have texts := file_eq_iff.mp same
  have solid {text : List Char} (absent : '-' ∉ text) : ∀ c ∈ text, (c != '-') = true := by
    intro c member
    rw [bne_iff_ne]
    rintro rfl
    exact absent member
  have owners := (Text.leaves_once (solid whole) (solid apart) rfl rfl texts).1
  rw [owners,List.append_cancel_left_eq] at texts
  cases key
  cases other
  cases String.toList_injective owners
  cases String.toList_injective (List.cons.inj texts).2
  rfl

theorem isDocument (key : Key) : ".json".toList.isSuffixOf key.file.toList = true := by
  rw [List.isSuffixOf_iff_suffix,toList_file]
  exact List.suffix_append _ _

theorem clean_file (key : Key) : '\x00' ∉ key.file.toList := by
  simp [toList_file,key.whole.2,key.solid.2]

end Key

/-- Whether the file of this name can be reached: neither the name nor the path is too long. -/
def Fits (directory : Path) (file : String) : Prop :=
  file.utf8ByteSize ≤ Disk.nameLimit ∧
    (directory.join ⟨0,[file]⟩).text.utf8ByteSize ≤ Disk.pathLimit

instance (directory : Path) (file : String) : Decidable (Fits directory file) :=
  inferInstanceAs (Decidable (_ ∧ _))

/-- What was last done under a pair of names: an analysis was saved, or the one there deleted. -/
structure Event where
  key : Key
  kept : Option StoredAnalysis

inductive Call where
  | save (key : Key) (model : Model) (sourceRoot : String) (sourceFiles : List String)
  | load (key : Key)
  | delete (key : Key)

namespace Call

def key : Call → Key
  | .save key _ _ _ => key
  | .load key => key
  | .delete key => key

/-- The counts of a model that is saved are numerals. -/
def Small : Call → Prop
  | .save _ model _ _ => model.stats.Small
  | _ => True

def run (store : Store) : Call → Action (Option Event)
  | .save key model sourceRoot sourceFiles => do
    return some ⟨key,some (← store.save key.owner key.name model sourceRoot sourceFiles)⟩
  | .load key => do
    let _ ← store.load key.owner key.name
    return none
  | .delete key => do
    return if ← store.delete key.owner key.name then some ⟨key,none⟩ else none

end Call

def event? (outcome : Except Fault (Option Event)) : Option Event :=
  match outcome with
  | .ok event => event
  | .error _ => none

/-- The events of some calls on a store, the last one first, and the world that they lead to. Calls
that fail have no event, and time goes by between them. -/
inductive History (store : Store) (start : World) : List Event → World → Prop
  | start : History store start [] start
  | call {events : List Event} {world : World} (history : History store start events world)
      (call : Call) (small : call.Small) :
      History store start ((event? ((call.run store).run.run world).1).toList ++ events)
        ((call.run store).run.run world).2
  | clock {events : List Event} {world : World} (history : History store start events world)
      (clock : String) : History store start events {world with clock}

variable {directory : Path} {world : World} {key : Key}

theorem fileOf_key (key : Key) :
    (Store.mk directory).fileOf key.owner key.name = directory.join ⟨0,[key.file]⟩ :=
  fileOf_join key.whole.1 key.solid.1

def slot (directory : Path) (here : Place) (key : Key) : Place :=
  directory.place here ++ [key.file]

/-- The file of a key is where its path leads, unless it cannot be reached. -/
theorem locate_key (opened : world.disk.HasDirectory world.here directory) (key : Key) :
    (Fits directory key.file → world.disk.locate world.here (directory.join ⟨0,[key.file]⟩) =
      .ok (slot directory world.here key)) ∧
    (¬ Fits directory key.file → world.disk.locate world.here (directory.join ⟨0,[key.file]⟩) =
      .error .nameTooLong) := by
  have enters := opened.enters
  have named := ne_parent_of_suffix key.isDocument
  have clean : (Path.mk 0 [key.file]).hasNull = false := by
    simpa [Path.hasNull] using key.clean_file
  constructor
  · exact fun fits => enters.locate named clean fits.1 fits.2
  · intro long
    rw [Disk.locate,Path.hasNull_join,enters.clean,clean,Bool.or_false,if_neg Bool.false_ne_true]
    split
    · rfl
    · next fits =>
      have name : Disk.nameLimit < key.file.utf8ByteSize :=
        Nat.lt_of_not_le fun name => long ⟨name,Nat.le_of_not_lt fits⟩
      change world.disk.walk (if directory.slashes == 0 then world.here else [])
        (directory.parts ++ [key.file]) = _
      rw [Disk.walk_append _ enters.walk,Disk.walk,enters.directory]
      dsimp only
      rw [if_neg (by simpa using named),if_pos name]

theorem run_load_unreached (long : world.disk.locate world.here
    ((Store.mk directory).fileOf key.owner key.name) = .error .nameTooLong) :
    ((Store.mk directory).load key.owner key.name).run.run world =
      (.error (.disk ⟨.nameTooLong,(Store.mk directory).fileOf key.owner key.name⟩),world) := by
  rw [load,isThere,Action.run_bind,Action.run_bind,Action.run_find?,Disk.find?,long]

/-- What is loaded from the node of a file. -/
def loadedFrom (path : Path) : Option Node → Except Fault (Option StoredAnalysis)
  | none => .ok none
  | some .directory => .error (.disk ⟨.isDirectory,path⟩)
  | some (.file bytes) =>
    match Text.Utf8.decode bytes with
    | .error problem => .error (.encoding problem)
    | .ok text =>
      match Json.read (Text.Utf8.unifyLineBreaks text) with
      | .error problem => .error (.document problem)
      | .ok value =>
        match StoredAnalysis.ofJson value with
        | .error mismatch => .error (.shape mismatch)
        | .ok analysis => .ok (some analysis)

theorem run_isThere {place : Place} (reached : world.disk.locate world.here
    ((Store.mk directory).fileOf key.owner key.name) = .ok place) :
    ((Store.mk directory).isThere key.owner key.name).run.run world =
      (.ok (world.disk.node? place).isSome,world) := by
  rw [isThere,Action.run_bind,Action.run_find?,Disk.find?,reached]
  rfl

theorem run_load_reached {place : Place} (reached : world.disk.locate world.here
    ((Store.mk directory).fileOf key.owner key.name) = .ok place) :
    ((Store.mk directory).load key.owner key.name).run.run world =
      (loadedFrom ((Store.mk directory).fileOf key.owner key.name) (world.disk.node? place),
        world) := by
  rw [load,Action.run_bind,run_isThere reached]
  cases node : world.disk.node? place with
  | none => rfl
  | some found =>
    dsimp only
    rw [if_pos Option.isSome_some]
    rw [Action.run_bind,Action.readDocument,Action.run_bind,Action.run_get]
    dsimp only
    cases found with
    | directory =>
      have unread : world.disk.read world.here ((Store.mk directory).fileOf key.owner key.name) =
          .error ⟨.isDirectory,(Store.mk directory).fileOf key.owner key.name⟩ := by
        rw [Disk.read,reached]
        dsimp only
        rw [node]
      rw [unread]
      rfl
    | file bytes =>
      rw [Disk.read_iff.mpr ⟨place,reached,node⟩,loadedFrom]
      dsimp only
      cases Text.Utf8.decode bytes with
      | error problem => rfl
      | ok text =>
        dsimp only
        cases Json.read (Text.Utf8.unifyLineBreaks text) with
        | error problem => rfl
        | ok value =>
          dsimp only
          change (do return some (← Action.ofShape (StoredAnalysis.ofJson value)) :
            Action _).run.run world = _
          cases StoredAnalysis.ofJson value <;> rfl

theorem loadedFrom_saved {path : Path} {analysis : StoredAnalysis}
    (faithful : Json.read analysis.toJson.print = .ok analysis.toJson) :
    loadedFrom path (some (.file (Text.Utf8.encode analysis.toJson.print))) =
      .ok (some analysis) := by
  have plain := Json.isPlain_print analysis.toJson
  rw [loadedFrom,Text.Utf8.decode_encode_plain plain]
  dsimp only
  rw [Text.Utf8.unifyLineBreaks_plain plain,faithful]
  rfl

/-- What the last event of a file has left there, or what was there at the start. -/
def left (directory : Path) (start : World) (events : List Event) (key : Key) : Option Node :=
  match events.find? fun event => event.key.file == key.file with
  | some event => event.kept.map fun analysis => .file (Text.Utf8.encode analysis.toJson.print)
  | none => start.disk.node? (slot directory start.here key)

/-- The files of a store in step with the events. -/
structure InStep (directory : Path) (start : World) (events : List Event) (world : World) :
    Prop where
  here : world.here = start.here
  grounded : world.disk.Grounded
  opened : world.disk.HasDirectory world.here directory
  nodes : ∀ key, world.disk.node? (slot directory world.here key) = left directory start events key
  faithful : ∀ event ∈ events, ∀ analysis ∈ event.kept,
    Json.read analysis.toJson.print = .ok analysis.toJson

/-- What a call does: it leaves all as it is, or it writes or removes the file of its key. -/
inductive Does (directory : Path) (world : World) (key : Key) : Option Event → World → Prop
  | nothing : Does directory world key none world
  | saved {analysis : StoredAnalysis}
      (faithful : Json.read analysis.toJson.print = .ok analysis.toJson)
      (outside : world.disk.node? (slot directory world.here key) ≠ some .directory) :
      Does directory world key (some ⟨key,some analysis⟩) {world with
        disk := world.disk.withFile (slot directory world.here key)
          (Text.Utf8.encode analysis.toJson.print)}
  | deleted {bytes : List UInt8}
      (node : world.disk.node? (slot directory world.here key) = some (.file bytes)) :
      Does directory world key (some ⟨key,none⟩) {world with
        disk := world.disk.removeTree (slot directory world.here key)}

theorem slot_of_locate {place : Place} (reached : world.disk.locate world.here
    ((Store.mk directory).fileOf key.owner key.name) = .ok place) :
    place = slot directory world.here key := by
  rw [Disk.place_of_locate reached,fileOf_key,place_join_name (ne_parent_of_suffix key.isDocument)]
  rfl

theorem call_does (call : Call) (small : call.Small) :
    Does directory world call.key (event? ((call.run ⟨directory⟩).run.run world).1)
      ((call.run ⟨directory⟩).run.run world).2 := by
  cases call with
  | save key model sourceRoot sourceFiles =>
    let analysis := describe key.owner key.name world.clock sourceRoot sourceFiles model
    have faithful : Json.read analysis.toJson.print = .ok analysis.toJson :=
      read_describe _ _ _ _ _ small
    rw [Call.run,Action.run_bind,run_save]
    dsimp only
    cases wrote : world.disk.write world.here ((Store.mk directory).fileOf key.owner key.name)
      (Text.Utf8.encode analysis.toJson.print) with
    | error fault => exact .nothing
    | ok disk =>
      obtain ⟨place,reached,outside,rfl⟩ := Disk.write_iff.mp wrote
      cases slot_of_locate reached
      exact .saved faithful outside
  | load key =>
    have same := within_load ⟨directory⟩ key.owner key.name world
    rw [Call.run,Action.run_bind]
    generalize ((Store.mk directory).load key.owner key.name).run.run world = outcome at same ⊢
    obtain ⟨outcome,after⟩ := outcome
    cases same
    cases outcome <;> exact .nothing
  | delete key =>
    rw [Call.run,delete,Action.run_bind,Action.run_bind]
    cases reached : world.disk.locate world.here ((Store.mk directory).fileOf key.owner key.name) with
    | error cause =>
      rw [isThere,Action.run_bind,Action.run_find?,Disk.find?,reached]
      cases cause <;> exact .nothing
    | ok place =>
      rw [run_isThere reached]
      cases node : world.disk.node? place with
      | none => exact .nothing
      | some found =>
        dsimp only
        rw [if_pos Option.isSome_some,Action.run_bind,Action.run_removeFile]
        cases removed : world.disk.removeFile world.here
          ((Store.mk directory).fileOf key.owner key.name) with
        | error fault => exact .nothing
        | ok disk =>
          obtain ⟨place,bytes,follows,file,rfl⟩ := Disk.removeFile_iff.mp removed
          cases slot_of_locate follows
          exact .deleted file

theorem slot_eq_iff {here : Place} {other : Key} :
    slot directory here key = slot directory here other ↔ key.file = other.file := by
  rw [slot,slot,List.append_cancel_left_eq,List.cons.injEq,and_iff_left rfl]

theorem left_cons {start : World} (event : Event) (events : List Event) (key : Key) :
    left directory start (event :: events) key =
      if event.key.file = key.file then
        event.kept.map fun analysis => .file (Text.Utf8.encode analysis.toJson.print)
      else left directory start events key := by
  rw [left,List.find?_cons]
  by_cases same : event.key.file = key.file
  · rw [if_pos same,beq_iff_eq.mpr same]
  · rw [if_neg same,beq_eq_false_iff_ne.mpr same]
    rfl

theorem InStep.start {start : World} (grounded : start.disk.Grounded)
    (opened : start.disk.HasDirectory start.here directory) : InStep directory start [] start :=
  ⟨rfl,grounded,opened,fun _ => rfl,nofun⟩

theorem InStep.does {start after : World} {events : List Event} {event : Option Event}
    (inStep : InStep directory start events world) (does : Does directory world key event after) :
    InStep directory start (event.toList ++ events) after := by
  obtain ⟨place,reached,node⟩ := inStep.opened
  cases Disk.place_of_locate reached
  cases does with
  | nothing => exact inStep
  | @saved analysis faithful outside =>
    have keeps : world.disk.Keeps (· ≠ slot directory world.here key) (world.disk.withFile
        (slot directory world.here key) (Text.Utf8.encode analysis.toJson.print)) :=
      Disk.keeps_withFile outside fun apart => apart rfl
    refine ⟨inStep.here,inStep.grounded.withFile node outside,keeps.hasDirectory inStep.opened,
      ?_,?_⟩
    · intro other
      rw [Option.toList_some,List.singleton_append,left_cons,← inStep.nodes]
      by_cases same : key.file = other.file
      · rw [if_pos same,← slot_eq_iff.mpr same]
        exact Disk.node?_withFile (by simp [slot])
      · rw [if_neg same]
        exact Disk.node?_withFile_of_ne fun slots => same (slot_eq_iff.mp slots).symm
    · rw [Option.toList_some,List.singleton_append,List.forall_mem_cons]
      refine ⟨?_,inStep.faithful⟩
      rintro _ ⟨⟩
      exact faithful
  | deleted file =>
    have keeps := Disk.keeps_removeTree inStep.grounded file
    refine ⟨inStep.here,inStep.grounded.removeTree file,keeps.hasDirectory inStep.opened,?_,?_⟩
    · intro other
      rw [Option.toList_some,List.singleton_append,left_cons,← inStep.nodes]
      change (world.disk.removeTree _).node? _ = _
      rw [Disk.node?_removeTree inStep.grounded file]
      by_cases same : key.file = other.file
      · rw [if_pos same,if_pos (slot_eq_iff.mpr same).symm]
        rfl
      · rw [if_neg same,if_neg fun slots => same (slot_eq_iff.mp slots).symm]
    · rw [Option.toList_some,List.singleton_append,List.forall_mem_cons]
      exact ⟨nofun,inStep.faithful⟩

theorem History.inStep {start : World} {events : List Event}
    (history : History ⟨directory⟩ start events world) (grounded : start.disk.Grounded)
    (opened : start.disk.HasDirectory start.here directory) :
    InStep directory start events world := by
  induction history with
  | start => exact .start grounded opened
  | call _ call small ih => exact ih.does (call_does call small)
  | clock _ clock ih => exact ⟨ih.here,ih.grounded,ih.opened,ih.nodes,ih.faithful⟩

section Loading
variable {start : World} {events : List Event} (inStep : InStep directory start events world)
include inStep

theorem InStep.run_load (fits : Fits directory key.file) :
    ((Store.mk directory).load key.owner key.name).run.run world =
      (loadedFrom ((Store.mk directory).fileOf key.owner key.name)
        (left directory start events key),world) := by
  have reached := (locate_key inStep.opened key).1 fits
  rw [← fileOf_key] at reached
  rw [run_load_reached reached,inStep.nodes]

theorem InStep.run_load_long (long : ¬ Fits directory key.file) :
    ((Store.mk directory).load key.owner key.name).run.run world =
      (.error (.disk ⟨.nameTooLong,(Store.mk directory).fileOf key.owner key.name⟩),world) := by
  apply run_load_unreached
  rw [fileOf_key]
  exact (locate_key inStep.opened key).2 long

/-- The last event of a file tells what is loaded from it. -/
theorem InStep.loadedFrom_left {event : Event} {path : Path}
    (last : events.find? (fun event => event.key.file == key.file) = some event) :
    loadedFrom path (left directory start events key) = .ok event.kept := by
  rw [left,last]
  dsimp only
  cases kept : event.kept with
  | none => rfl
  | some analysis =>
    exact loadedFrom_saved (inStep.faithful event (List.mem_of_find?_eq_some last) analysis kept)

end Loading

/-- What was last done under exactly this pair of names. -/
def latest (events : List Event) (key : Key) : Option Event :=
  events.find? fun event => event.key == key

theorem Does.key_eq {event : Event} {after : World}
    (does : Does directory world key (some event) after) : event.key = key := by
  cases does <;> rfl

/-- In every course of calls on a store, what is loaded under a pair of names is what was last done
under any pair with the same file, and before that what was loaded at the start. So where no other
pair has the file, which is sure of owners without hyphens, an analysis that was saved under just
these names is found until it is deleted, and nothing else is; and a call on another file changes
nothing. A name that is too long for the disk is never loaded. -/
theorem load_follows_file {start : World} {events : List Event}
    (grounded : start.disk.Grounded) (opened : start.disk.HasDirectory start.here directory)
    (history : History ⟨directory⟩ start events world) (key : Key) :
    (Fits directory key.file →
      ((Store.mk directory).load key.owner key.name).run.run world =
        (match events.find? fun event => event.key.file == key.file with
        | some event => .ok event.kept
        | none => (((Store.mk directory).load key.owner key.name).run.run start).1,world)) ∧
    (Fits directory key.file → start.disk.node? (slot directory start.here key) = none →
      ((∀ event ∈ events, event.key.file = key.file → event.key = key) ∨
        '-' ∉ key.owner.toList ∧ ∀ event ∈ events, '-' ∉ event.key.owner.toList) →
      ((Store.mk directory).load key.owner key.name).run.run world =
        (.ok ((latest events key).bind Event.kept),world)) ∧
    (¬ Fits directory key.file →
      ((Store.mk directory).load key.owner key.name).run.run world =
        (.error (.disk ⟨.nameTooLong,(Store.mk directory).fileOf key.owner key.name⟩),world)) ∧
    ∀ call : Call, call.Small → call.key.file ≠ key.file →
      (((Store.mk directory).load key.owner key.name).run.run
          ((call.run ⟨directory⟩).run.run world).2).1 =
        (((Store.mk directory).load key.owner key.name).run.run world).1 := by
  have inStep := history.inStep grounded opened
  have first := InStep.start grounded opened
  have byFile (fits : Fits directory key.file) :
      ((Store.mk directory).load key.owner key.name).run.run world =
        (match events.find? fun event => event.key.file == key.file with
        | some event => .ok event.kept
        | none => (((Store.mk directory).load key.owner key.name).run.run start).1,world) := by
    rw [inStep.run_load fits]
    cases last : events.find? fun event => event.key.file == key.file with
    | some event => rw [inStep.loadedFrom_left last]
    | none =>
      rw [left,last,first.run_load fits]
      rfl
  refine ⟨byFile,?_,inStep.run_load_long,?_⟩
  · intro fits free apart
    have own : ∀ event ∈ events, event.key.file = key.file → event.key = key := by
      rcases apart with own | ⟨whole,wholes⟩
      · exact own
      · exact fun event member => Key.file_injective (wholes event member) whole
    have same : events.find? (fun event => event.key.file == key.file) = latest events key := by
      rw [latest,← List.head?_filter,← List.head?_filter]
      congr 1
      apply List.filter_congr
      intro event member
      rw [Bool.eq_iff_iff,beq_iff_eq,beq_iff_eq]
      exact ⟨own event member,congrArg Key.file⟩
    have nothing : (((Store.mk directory).load key.owner key.name).run.run start).1 = .ok none := by
      rw [first.run_load fits]
      change loadedFrom _ (start.disk.node? (slot directory start.here key)) = _
      rw [free]
      rfl
    rw [byFile fits,same,nothing]
    cases latest events key <;> rfl
  · intro call small other
    have does := @call_does directory world call small
    have further := inStep.does does
    have kept : left directory start ((event? ((call.run ⟨directory⟩).run.run world).1).toList ++
        events) key = left directory start events key := by
      generalize event? ((call.run ⟨directory⟩).run.run world).1 = event at does
      cases event with
      | none => rfl
      | some event =>
        rw [Option.toList_some,List.singleton_append,left_cons,does.key_eq,if_neg other]
    by_cases fits : Fits directory key.file
    · rw [further.run_load fits,inStep.run_load fits,kept]
    · rw [further.run_load_long fits,inStep.run_load_long fits]

theorem grounded_empty : ({} : Disk).Grounded := by
  intro place part there
  refine absurd ?_ there
  rw [Disk.node?,if_neg (by simp)]
  rfl

theorem opened_root : ({} : Disk).HasDirectory [] ⟨1,[]⟩ := ⟨[],rfl,rfl⟩

/-- A history of one call: an analysis without types is saved in the root of an empty disk. -/
theorem history_first (key : Key) (fits : Fits ⟨1,[]⟩ key.file) : ∃ world,
    History ⟨⟨1,[]⟩⟩ {} [⟨key,some (describe key.owner key.name "" "/src" [] {})⟩] world := by
  let bytes := Text.Utf8.encode (describe key.owner key.name "" "/src" [] {}).toJson.print
  have reached := (@locate_key _ {} opened_root key).1 fits
  rw [← fileOf_key] at reached
  have wrote : ({} : Disk).write [] ((Store.mk ⟨1,[]⟩).fileOf key.owner key.name) bytes =
      .ok (({} : Disk).withFile [key.file] bytes) :=
    Disk.write_iff.mpr ⟨_,reached,nofun,rfl⟩
  have saved : ((Call.save key {} "/src" []).run ⟨⟨1,[]⟩⟩).run.run {} =
      (.ok (some ⟨key,some (describe key.owner key.name "" "/src" [] {})⟩),
        {disk := ({} : Disk).withFile [key.file] bytes}) := by
    rw [Call.run,Action.run_bind,run_save]
    dsimp only
    rw [wrote]
    rfl
  have history := (@History.start ⟨⟨1,[]⟩⟩ {}).call (.save key {} "/src" []) Model.small_empty
  rw [saved] at history
  exact ⟨_,history⟩

theorem load_follows_file_shop :
    let key : Key := ⟨"local","shop",by decide,by decide⟩
    ∃ events world, History ⟨⟨1,[]⟩⟩ {} events world ∧
      ((Store.mk ⟨1,[]⟩).load key.owner key.name).run.run world =
        (.ok (some (describe key.owner key.name "" "/src" [] {})),world) := by
  intro key
  have fits : Fits ⟨1,[]⟩ key.file := by decide
  obtain ⟨world,history⟩ := history_first key fits
  have whole : ∀ event ∈ [Event.mk key (some (describe key.owner key.name "" "/src" [] {}))],
      '-' ∉ event.key.owner.toList := by
    rw [List.forall_mem_singleton]
    decide
  refine ⟨_,world,history,?_⟩
  rw [(load_follows_file grounded_empty opened_root history key).2.1 fits rfl
    (.inr ⟨by decide,whole⟩),latest,List.find?_cons_of_pos (by decide)]
  rfl

/-- An analysis is loaded under names under which none was saved. -/
theorem load_other_names :
    let saved : Key := ⟨"a-b","c",by decide,by decide⟩
    let asked : Key := ⟨"a","b-c",by decide,by decide⟩
    ∃ events world, History ⟨⟨1,[]⟩⟩ {} events world ∧ (∀ event ∈ events, event.key = saved) ∧
      saved ≠ asked ∧ ((Store.mk ⟨1,[]⟩).load asked.owner asked.name).run.run world =
        (.ok (some (describe "a-b" "c" "" "/src" [] {})),world) := by
  intro saved asked
  have fits : Fits ⟨1,[]⟩ asked.file := by decide
  obtain ⟨world,history⟩ := history_first saved fits
  have inStep := history.inStep grounded_empty opened_root
  refine ⟨_,world,history,by rw [List.forall_mem_singleton],by decide,?_⟩
  rw [inStep.run_load fits,inStep.loadedFrom_left (List.find?_cons_of_pos (by decide))]

end Store

end JavaAtlas
