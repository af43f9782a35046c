import JavaAtlas.Proofs.Listing
import JavaAtlas.Proofs.Pages
import JavaAtlas.Query.Basic

/-! What an analysis leaves behind. It ends with a deposit, which then lies in the store while all
other files are as they were, or it ends before, and then all of them are. Reports come after. -/
namespace JavaAtlas
variable {world between after : World} {directory : Path} {store : Store}

theorem Settings.given?_filter (environment : Environment) (name : String) :
    (given? environment name).filter (fun text => !text.isEmpty) = given? environment name := by
  rw [given?,Option.filter_filter]
  simp only [Bool.and_self]

/-- The directory of a store: the one that is chosen, or the one in the home directory. -/
def World.storeAt (world : World) (chosen : Option String) : Except Fault Path :=
  match chosen.filter fun text => !text.isEmpty with
  | some text => .ok (.ofText text)
  | none => world.expandHome ⟨0,["~",".code-analysis"]⟩

/-- The directory of the store. -/
def World.storePath (world : World) : Except Fault Path :=
  match world.settings.storagePath with
  | some text => .ok (.ofText text)
  | none => world.expandHome ⟨0,["~",".code-analysis"]⟩

theorem World.SameSite.settings (same : world.SameSite after) :
    after.settings = world.settings := by
  rw [World.settings,World.settings,same.environment]

theorem World.storeAt_settings (world : World) :
    world.storeAt world.settings.storagePath = world.storePath := by
  have given : world.settings.storagePath.filter (fun text => !text.isEmpty) =
      world.settings.storagePath := Settings.given?_filter _ _
  rw [storeAt,given,storePath]

theorem World.SameSite.expandHome (same : world.SameSite after) (path : Path) :
    after.expandHome path = world.expandHome path := by
  have homePath : after.homePath = world.homePath := by
    rw [World.homePath,World.homePath,same.home]
  rw [World.expandHome,World.expandHome,homePath]

theorem World.SameSite.storeAt (same : world.SameSite after) (chosen : Option String) :
    after.storeAt chosen = world.storeAt chosen := by
  rw [World.storeAt,World.storeAt]
  split
  · rfl
  · exact same.expandHome _

theorem World.SameSite.storePath (same : world.SameSite after) :
    after.storePath = world.storePath := by
  rw [← World.storeAt_settings,← World.storeAt_settings,same.settings,same.storeAt]

/-- No part of the place from which the world is seen has a slash in its name. -/
def World.Plain (world : World) : Prop := Path.Plain world.here

theorem World.SameSite.plain (same : world.SameSite after) (plain : world.Plain) : after.Plain := by
  rw [Plain,same.here]
  exact plain

theorem World.plain_homePath {home : Path} (found : world.homePath = .ok home) :
    Path.Plain home.parts := by
  rw [homePath] at found
  split at found
  · cases found
    exact Path.plain_ofText "/"
  · split at found
    · cases found
    · cases found
      exact Path.plain_ofText world.home

theorem World.plain_expandHome {path expanded : Path} (plain : Path.Plain path.parts)
    (expands : world.expandHome path = .ok expanded) : Path.Plain expanded.parts := by
  rw [expandHome] at expands
  split at expands
  · next first rest _ parts =>
    split at expands
    · cases found : world.homePath with
      | error fault =>
        rw [found] at expands
        cases expands
      | ok home =>
        rw [found] at expands
        cases expands
        rw [parts] at plain
        exact (plain_homePath found).append plain.tail
    · split at expands
      · cases expands
      · cases expands
        exact plain
  · cases expands
    exact plain

theorem Action.plain_resolve {path : Path} {place : Place} (plain : world.Plain)
    (parts : Path.Plain path.parts)
    (resolved : (resolve path).run.run world = (.ok place,after)) : Path.Plain place := by
  rw [resolve,expandHome] at resolved
  obtain ⟨expanded,_,expands,resolved⟩ := run_bind_ok resolved
  cases found : world.expandHome path with
  | error fault =>
    rw [run_bind,run_get] at expands
    dsimp only at expands
    rw [found] at expands
    cases expands
  | ok target =>
    rw [run_bind,run_get] at expands
    dsimp only at expands
    rw [found] at expands
    cases expands
    split at resolved
    · cases resolved
    · cases resolved
      exact Path.plain_place plain (World.plain_expandHome parts found)

namespace Store

theorem run_openAt (chosen : Option String) (world : World) :
    (openAt chosen).run.run world =
      match world.storeAt chosen with
      | .ok path => (do Action.makeDirectories path; return ⟨path⟩ : Action Store).run.run world
      | .error fault => (.error fault,world) := by
  rw [openAt,World.storeAt]
  cases chosen.filter fun text => !text.isEmpty with
  | some text => rfl
  | none =>
    dsimp only
    rw [Action.run_bind,Action.expandHome,Action.run_bind,Action.run_get]
    dsimp only
    cases world.expandHome ⟨0,["~",".code-analysis"]⟩ <;> rfl

theorem opened_of_openAt {chosen : Option String}
    (opened : (openAt chosen).run.run world = (.ok store,after)) :
    world.storeAt chosen = .ok store.directory ∧
      after.disk.HasDirectory after.here store.directory := by
  rw [run_openAt] at opened
  cases found : world.storeAt chosen with
  | error fault =>
    rw [found] at opened
    cases opened
  | ok path =>
    rw [found] at opened
    obtain ⟨_,made,first,last⟩ := Action.run_bind_ok opened
    cases last
    rw [Action.run_makeDirectories] at first
    split at first
    · next disk done =>
      cases first
      exact ⟨rfl,Disk.hasDirectory_of_makeDirectories done⟩
    · cases first

theorem run_openAt_again {chosen : Option String} (path : world.storeAt chosen = .ok directory)
    (opened : world.disk.HasDirectory world.here directory) :
    (openAt chosen).run.run world = (.ok ⟨directory⟩,world) := by
  rw [run_openAt,path]
  dsimp only
  rw [Action.run_bind,Action.run_makeDirectories,Disk.makeDirectories_eq opened]
  rfl

theorem within_openAt {kept : Place → Prop} (path : Option String) :
    (openAt path).Within (World.Keeps kept) := by
  have make (path : Path) : (do Action.makeDirectories path; return ⟨path⟩ : Action Store).Within
      (World.Keeps kept) :=
    (Action.within_makeDirectories path).bind fun _ => Action.within_pure _
  rw [openAt]
  split
  · exact (Action.within_pure _).bind make
  · exact (Action.within_expandHome _).bind make

theorem within_list (store : Store) : store.list.Within Eq := by
  rw [list]
  refine Action.within_get.bind fun world => ?_
  apply Action.Within.filterMapM
  intro file
  rw [entryOf?]
  refine Action.Within.tryCatch ?_ ?_
  · exact (Action.within_readDocument _).bind fun value =>
      (Action.within_ofShape _).bind fun _ => Action.within_pure _
  · intro fault
    split
    · exact Action.within_pure _
    · exact Action.within_throw _

theorem within_resolve (store : Store) (repo : Json) : (store.resolve repo).Within Eq := by
  rw [resolve]
  refine (Action.within_ofShape _).bind fun divided => ?_
  split
  · exact (Action.within_ofShape _).bind fun _ => Action.within_pure _
  · exact (within_list store).bind fun _ => Action.within_ofShape _

theorem within_load (store : Store) (owner name : String) : (store.load owner name).Within Eq := by
  rw [load,isThere]
  refine ((Action.within_find? _).bind fun _ => Action.within_pure _).bind fun there => ?_
  split
  · exact (Action.within_readDocument _).bind fun _ =>
      (Action.within_ofShape _).bind fun _ => Action.within_pure _
  · exact Action.within_pure _

end Store

namespace Analysis

theorem merge_open (disk : Disk) (here : Place) (model : Model)
    (so : model.Reachable ∧ model.resolved = false) (path : Path) :
    (merge disk here model path).Reachable ∧ (merge disk here model path).resolved = false := by
  obtain ⟨reachable,isOpen⟩ := so
  rw [merge]
  split
  · exact ⟨reachable.warn _,isOpen⟩
  · exact ⟨reachable,isOpen⟩
  · next extraction _ =>
    obtain ⟨next,taken,added,grown⟩ := Model.add_open isOpen extraction
    rw [added]
    exact ⟨grown.reachable reachable,grown.isOpen⟩

theorem merged_open (disk : Disk) (here : Place) (paths : List Path) :
    (paths.foldl (merge disk here) {}).Reachable ∧
      (paths.foldl (merge disk here) {}).resolved = false := by
  refine List.foldlRecOn paths (merge disk here) (motive := fun model =>
    model.Reachable ∧ model.resolved = false) ⟨.empty,rfl⟩ ?_
  exact fun model so path _ => merge_open disk here model so path

theorem ofFiles_eq (disk : Disk) (here : Place) (paths : List Path) :
    ofFiles disk here paths = (paths.foldl (merge disk here) {}).related := by
  rw [ofFiles,Model.resolve_open (merged_open disk here paths).2]

/-- The model of a list of files is reachable, and its references are resolved. -/
theorem ofFiles_resolved (disk : Disk) (here : Place) (paths : List Path) :
    (ofFiles disk here paths).Reachable ∧ (ofFiles disk here paths).resolved = true := by
  obtain ⟨merged,isOpen⟩ := merged_open disk here paths
  have reachable := merged.resolve
  rw [Model.Change.run_resolve,isOpen,if_neg Bool.false_ne_true] at reachable
  rw [ofFiles_eq]
  exact ⟨reachable,rfl⟩

end Analysis

namespace Query

/-- The answer from a store that is open. -/
def answerFrom (store : Store) (repo : Json)
    (answer : String → Json → Except Json.Mismatch Json) : Action Json := do
  match ← store.resolve repo with
  | none => return refusal ("Analysis not found: " ++ repo.text)
  | some (owner,name) =>
    let label := owner ++ "/" ++ name
    match ← store.load owner name with
    | none => return refusal ("Folder not analyzed: " ++ label)
    | some analysis => Action.ofShape (answer label analysis.model)

theorem ask_eq (path : Option String) (repo : Json)
    (answer : String → Json → Except Json.Mismatch Json) :
    ask path repo answer = Store.openAt path >>= fun store => answerFrom store repo answer := rfl

/-- A question is answered from the analysis that the store holds under the name. -/
theorem run_ask_stored {path : Option String} {repo : Json} {owner name : String}
    {analysis : StoredAnalysis}
    (opened : (Store.openAt path).run.run world = (.ok store,after))
    (resolved : (store.resolve repo).run.run after = (.ok (some (owner,name)),after))
    (loaded : (store.load owner name).run.run after = (.ok (some analysis),after))
    (answer : String → Json → Except Json.Mismatch Json) :
    (ask path repo answer).run.run world =
      (Action.ofShape (answer (owner ++ "/" ++ name) analysis.model)).run.run after := by
  rw [ask,Action.run_bind,opened]
  dsimp only
  rw [Action.run_bind,resolved]
  dsimp only
  rw [Action.run_bind,loaded]

theorem within_answerFrom (store : Store) (repo : Json)
    (answer : String → Json → Except Json.Mismatch Json) :
    (answerFrom store repo answer).Within Eq := by
  rw [answerFrom]
  refine (Store.within_resolve store repo).bind fun found => ?_
  split
  · exact Action.within_pure _
  · refine (Store.within_load store _ _).bind fun loaded => ?_
    split
    · exact Action.within_pure _
    · exact Action.within_ofShape _

/-- A question leaves all files as they were. -/
theorem within_ask {kept : Place → Prop} (path : Option String) (repo : Json)
    (answer : String → Json → Except Json.Mismatch Json) :
    (ask path repo answer).Within (World.Keeps kept) := by
  rw [ask_eq]
  exact (Store.within_openAt path).bind fun store => (within_answerFrom store repo answer).of_same

theorem within_listing {kept : Place → Prop} (path : Option String) :
    (listing path).Within (World.Keeps kept) := by
  rw [listing]
  exact (Store.within_openAt path).bind fun store =>
    (Store.within_list store).of_same.bind fun _ => Action.within_pure _

/-- The store that is chosen for an analysis. -/
def AnalyzeRequest.chosen (request : AnalyzeRequest) (world : World) : Option String :=
  (request.storagePath.filter fun text => !text.isEmpty).or world.settings.storagePath

theorem AnalyzeRequest.storeAt_chosen {request : AnalyzeRequest}
    (path : request.storagePath = world.settings.storagePath) :
    world.storeAt (request.chosen world) = world.storePath := by
  have chosen : request.chosen world = world.settings.storagePath := by
    rw [chosen,path,World.settings,Settings.ofEnvironment,Settings.given?_filter,Option.or_self]
  rw [chosen,World.storeAt_settings]

/-- The deposit has come into the store, and of other files only those that are not `kept` may have
changed. -/
structure Stores (path : Except Fault Path) (kept : Place → Prop) (before : World)
    (deposit : Deposit) (after : World) : Prop where
  sound : deposit.Sound
  filed : ∃ directory, path = .ok directory ∧ Store.Has directory deposit after ∧
    before.Keeps (fun place => kept place ∧
      place ≠ directory.place before.here ++ [Deposit.fileName deposit.name]) after

theorem Stores.of_keeps {path : Except Fault Path} {kept : Place → Prop} {deposit : Deposit}
    (stores : Stores path kept between deposit after)
    (keeps : world.Keeps (fun _ => True) between) : Stores path kept world deposit after := by
  obtain ⟨sound,directory,path,has,changes⟩ := stores
  rw [keeps.here] at changes
  exact ⟨sound,directory,path,has,trans_of (World.Keeps _) (keeps.mono fun _ _ => trivial) changes⟩

/-- A deposit is stored by writing its file in the store. -/
theorem stores_of_write {deposit : Deposit} {disk : Disk} (sound : deposit.Sound)
    (opened : world.disk.HasDirectory world.here directory)
    (wrote : world.disk.write world.here ((Store.mk directory).fileOf "local" deposit.name)
      deposit.bytes = .ok disk) :
    Stores (.ok directory) (fun _ => True) world deposit {world with disk} := by
  have read := Disk.read_of_write wrote
  obtain ⟨file,reached,outside,rfl⟩ := Disk.write_iff.mp wrote
  rw [Store.fileOf_eq sound.solid] at read reached
  have here : file = directory.place world.here ++ [Deposit.fileName deposit.name] := by
    rw [Disk.place_of_locate reached]
    exact Store.place_join_name (Store.ne_parent_of_suffix (Store.suffix_fileName _)) _
  have changes : world.disk.Keeps (fun place => True ∧
      place ≠ directory.place world.here ++ [Deposit.fileName deposit.name])
      (world.disk.withFile file deposit.bytes) :=
    Disk.keeps_withFile outside fun apart => apart.2 here
  exact ⟨sound,directory,rfl,⟨changes.hasDirectory opened,read⟩,⟨rfl,rfl,rfl⟩,changes⟩

/-- Something good came of an action, or its failure left all files as they were. -/
def Comes {α : Type} (good : α → World → Prop) (before : World) : Except Fault α × World → Prop
  | (.ok value,after) => good value after
  | (.error _,after) => before.Keeps (fun _ => True) after

/-- The deposit is that of the folder and of the model, and has come into the store. -/
structure Keeping (request : AnalyzeRequest) (place : Place) (fileCount : Nat) (model : Model)
    (before : World) (deposit : Deposit) (after : World) : Prop where
  place : deposit.place = place
  fileCount : deposit.fileCount = fileCount
  model : deposit.model = model
  stores : Stores (before.storeAt (request.chosen before)) (fun _ => True) before deposit after

theorem Keeping.of_keeps {request : AnalyzeRequest} {place : Place} {fileCount : Nat}
    {model : Model} {deposit : Deposit}
    (keeping : Keeping request place fileCount model between deposit after)
    (keeps : world.Keeps (fun _ => True) between) :
    Keeping request place fileCount model world deposit after := by
  have stores := keeping.stores
  rw [keeps.storeAt,AnalyzeRequest.chosen,keeps.settings] at stores
  exact ⟨keeping.place,keeping.fileCount,keeping.model,stores.of_keeps keeps⟩

theorem comes_keep {request : AnalyzeRequest} {place : Place} (fileCount : Nat) (model : Model)
    (solid : '/' ∉ place.path.name.toList) :
    Comes (Keeping request place fileCount model world) world
      ((keep request place fileCount model).run.run world) := by
  rw [keep,Action.run_bind,Action.run_get]
  dsimp only
  rw [← AnalyzeRequest.chosen]
  apply Action.run_after (Store.within_openAt _)
  · intro fault after keeps
    exact keeps
  intro store between opened keeps
  have opens := Store.opened_of_openAt opened
  rw [Action.run_bind,Store.run_save]
  dsimp only
  cases wrote : between.disk.write between.here (store.fileOf "local" place.path.name)
    (Text.Utf8.encode (Store.describe "local" place.path.name between.clock place.path.text
      (model.units.values.map CompilationUnit.file) model).toJson.print) with
  | error fault => exact keeps
  | ok disk =>
    let analysis := Store.describe "local" place.path.name between.clock place.path.text
      (model.units.values.map CompilationUnit.file) model
    let deposit : Deposit := {place,fileCount,model,analysis}
    have sound : deposit.Sound := ⟨solid,between.clock,rfl⟩
    have stores := (stores_of_write sound opens.2 wrote).of_keeps keeps
    rw [← opens.1] at stores
    exact ⟨rfl,rfl,rfl,stores⟩

/-- The model with summaries of all methods, as they can be made in the world. -/
def summarized (world : World) (useAssistant : Bool) (model : Model) : Model :=
  model.withMethods (Summary.all useAssistant
    (if world.settings.assistantAvailable then some world.assistant else none) model.methods).1

theorem run_summarize (useAssistant : Bool) (model : Model) (world : World) :
    ∃ after, (summarize useAssistant model).run.run world =
      (.ok (summarized world useAssistant model),after) ∧
        world.Keeps (fun _ => True) after :=
  ⟨_,rfl,⟨rfl,rfl,rfl⟩,.refl _ world.disk⟩

/-- A deposit has been made, or the answer tells that none was and all files are as they were. -/
def Ends (good : Deposit → World → Prop) (before : World) : Except Json Deposit → World → Prop
  | .ok deposit, after => good deposit after
  | .error answer, after =>
    answer.need "success" = .ok (.bool false) ∧ before.Keeps (fun _ => True) after

theorem comes_depositModel {request : AnalyzeRequest} {place : Place} (fileCount : Nat)
    (model : Model) (solid : '/' ∉ place.path.name.toList) :
    Comes (Ends (Keeping request place fileCount
        (summarized world request.useAssistant.isGiven model) world) world)
      world ((depositModel request place fileCount model).run.run world) := by
  rw [depositModel]
  split
  · exact ⟨rfl,refl_of (World.Keeps _) world⟩
  · obtain ⟨between,summaries,keeps⟩ := run_summarize request.useAssistant.isGiven model world
    rw [Action.run_bind,summaries]
    dsimp only
    have kept := @comes_keep between request place fileCount
      (summarized world request.useAssistant.isGiven model) solid
    rw [Action.run_bind]
    generalize (keep request place fileCount _).run.run between = outcome at kept ⊢
    obtain ⟨outcome,after⟩ := outcome
    cases outcome with
    | error fault => exact trans_of (World.Keeps _) keeps kept
    | ok deposit => exact Keeping.of_keeps kept keeps

theorem comes_depositFiles {request : AnalyzeRequest} {place : Place} (files : List Path)
    (solid : '/' ∉ place.path.name.toList) :
    Comes (Ends (Keeping request place files.length (summarized world request.useAssistant.isGiven
        (Analysis.ofFiles world.disk world.here files)) world) world) world
      ((depositFiles request place files).run.run world) := by
  have rest := @comes_depositModel world request place files.length
    (Analysis.ofFiles world.disk world.here files) solid
  rw [depositFiles]
  split
  · exact ⟨rfl,refl_of (World.Keeps _) world⟩
  · split
    · apply Action.run_after_same (Action.within_ofShape _)
      · exact fun fault => refl_of (World.Keeps _) world
      · exact fun _ _ => rest
    · exact rest

/-- The deposit is of the folder that was asked for, with the model of its sources. -/
structure Built (request : AnalyzeRequest) (world : World) (deposit : Deposit) : Prop where
  folder : ∃ path, pathOf request.path = .ok path ∧
    (Action.resolve path).run.run world = (.ok deposit.place,world)
  model : ∃ specificClass, classNameOf request.specificClass = .ok specificClass ∧
    deposit.model = summarized world request.useAssistant.isGiven
      (Analysis.ofFiles world.disk world.here (sourcesFor world deposit.place.path specificClass))

theorem within_findSources {relation : World → World → Prop} [IsPreorder World relation]
    (folder : Path) (specificClass : Option String) :
    (findSources folder specificClass).Within relation := by
  rw [findSources]
  refine Action.within_get.bind fun world => ?_
  split
  · exact Action.within_pure _
  · exact Action.within_throw _

theorem run_findSources (folder : Path) (specificClass : Option String) (world : World) :
    (findSources folder specificClass).run.run world =
      match Discovery.lookThrough world.disk world.here folder with
      | .ok _ => (.ok (sourcesFor world folder specificClass),world)
      | .error fault => (.error (.disk fault),world) := by
  rw [findSources,Action.run_bind,Action.run_get]
  dsimp only
  cases Discovery.lookThrough world.disk world.here folder <;> rfl

theorem sources_of_findSources {folder : Path} {specificClass : Option String}
    {files : List Path} (found : (findSources folder specificClass).run.run world =
      (.ok files,after)) : files = sourcesFor world folder specificClass := by
  rw [run_findSources] at found
  split at found
  · cases found
    rfl
  · cases found

/-- The number of files is that of the sources that were found. -/
def Counted (request : AnalyzeRequest) (world : World) (deposit : Deposit) : Prop :=
  ∀ specificClass, classNameOf request.specificClass = .ok specificClass →
    deposit.fileCount = (sourcesFor world deposit.place.path specificClass).length

/-- The deposit was built as asked and has come into the store that was chosen. -/
structure Made (kept : Place → Prop) (request : AnalyzeRequest) (before : World)
    (deposit : Deposit) (after : World) : Prop where
  built : Built request before deposit
  counted : Counted request before deposit
  stores : Stores (before.storeAt (request.chosen before)) kept before deposit after

/-- Where the folder is there and can be looked through, its sources are analysed. -/
theorem run_deposit {request : AnalyzeRequest} {path : Path} {place : Place}
    {specificClass : Option String} (asked : pathOf request.path = .ok path)
    (resolved : (Action.resolve path).run.run world = (.ok place,world))
    (there : world.disk.find? world.here place.path = .ok (some .directory))
    (named : classNameOf request.specificClass = .ok specificClass)
    (looked : Discovery.lookThrough world.disk world.here place.path = .ok ()) :
    (deposit request).run.run world =
      (depositFiles request place (sourcesFor world place.path specificClass)).run.run world := by
  rw [deposit,Action.run_bind,asked,Action.run_ofShape]
  dsimp only
  rw [Action.run_bind,resolved]
  dsimp only
  rw [Action.run_bind,Action.run_find?,there]
  dsimp only
  rw [Action.run_bind,named,Action.run_ofShape]
  dsimp only
  rw [Action.run_bind,run_findSources,looked]

theorem comes_deposit {request : AnalyzeRequest} (plain : world.Plain) :
    Comes (Ends (Made (fun _ => True) request world) world) world
      ((deposit request).run.run world) := by
  have same : world.Keeps (fun _ => True) world := refl_of (World.Keeps _) world
  rw [deposit]
  refine Action.run_after_same (Action.within_ofShape _) (fun _ => same) ?_
  intro folder shaped
  refine Action.run_after_same (Action.within_resolve _) (fun _ => same) ?_
  intro place resolved
  refine Action.run_after_same (Action.within_find? _) (fun _ => same) ?_
  intro node _
  have asked := Action.ok_of_ofShape shaped
  have parts : Path.Plain folder.parts := by
    cases text : request.path with
    | str text' =>
      rw [text] at asked
      cases asked
      exact Path.plain_ofText text'
    | _ =>
      rw [text] at asked
      cases asked
  have solid : '/' ∉ place.path.name.toList :=
    Path.solid_name (Action.plain_resolve plain parts resolved)
  cases node with
  | none => exact ⟨rfl,same⟩
  | some node =>
    cases node with
    | file bytes => exact ⟨rfl,same⟩
    | directory =>
      dsimp only
      refine Action.run_after_same (Action.within_ofShape _) (fun _ => same) ?_
      intro specificClass named
      refine Action.run_after_same (within_findSources _ _) (fun _ => same) ?_
      intro files found
      rw [sources_of_findSources found]
      have kept := @comes_depositFiles world request place
        (sourcesFor world place.path specificClass) solid
      generalize (depositFiles request place _).run.run world = outcome at kept ⊢
      obtain ⟨outcome,after⟩ := outcome
      match outcome, kept with
      | .error fault, kept => exact kept
      | .ok (.error answer), kept => exact kept
      | .ok (.ok deposit), kept =>
        obtain ⟨rfl,fileCount,model,stores⟩ := kept
        have classNamed := Action.ok_of_ofShape named
        refine ⟨⟨⟨folder,asked,resolved⟩,specificClass,classNamed,model⟩,?_,stores⟩
        intro other alsoNamed
        rw [classNamed] at alsoNamed
        rw [fileCount,Except.ok.inj alsoNamed]

/-- Reports are written after the deposit, and change nothing but reports. -/
theorem within_conclude (request : AnalyzeRequest) (deposit : Deposit) :
    (conclude request deposit).Within (World.Keeps fun place => ¬ Report.IsReport place) := by
  rw [conclude]
  refine Action.Within.bind ?_ fun _ => Action.within_pure _
  rw [writeReports]
  split
  · exact (Action.within_ofShape _).bind fun output =>
      (Report.within_writeAll deposit.model output).bind fun _ => Action.within_pure _
  · exact Action.within_pure _

/-- The answer begins with what is told of the deposit. -/
theorem answer_of_conclude {request : AnalyzeRequest} {deposit : Deposit} {answer : Json}
    (done : (conclude request deposit).run.run world = (.ok answer,after)) :
    ∃ more, answer = .obj ([("success",.bool true),("repo",.str ("local/" ++ deposit.name)),
      ("folder_path",.str deposit.place.path.text),("analyzed_at",deposit.analysis.analyzedAt),
      ("file_count",.ofNat deposit.fileCount)] ++ (deposit.model.stats.fields ++ more)) := by
  rw [conclude] at done
  obtain ⟨reports,_,_,done⟩ := Action.run_bind_ok done
  cases done
  simp only [List.append_assoc]
  exact ⟨_,rfl⟩

/-- The deposit that an analysis makes, if it makes one. -/
def made? (request : AnalyzeRequest) (world : World) : Option Deposit :=
  match ((deposit request).run.run world).1 with
  | .ok (.ok made) => some made
  | _ => none

theorem not_isReport {above : Place} {file : String}
    (document : ".json".toList.isSuffixOf file.toList = true) :
    ¬ Report.IsReport (above ++ [file]) := by
  rintro ⟨others,last,same,report⟩
  have suffix := List.isSuffixOf_iff_suffix.mp document
  rw [(List.cons.inj (List.append_inj' same rfl).2).1] at suffix
  exact absurd (List.suffix_of_suffix_length_le report suffix (by decide)) (by decide)

/-- The store goes on to hold only deposits when one more comes. -/
theorem Stores.holdsOnly {path : Except Fault Path} {deposit : Deposit} {deposits : List Deposit}
    (stores : Stores path (fun place => ¬ Report.IsReport place) world deposit after)
    (found : path = .ok directory) (only : Store.HoldsOnly directory deposits world) :
    Store.HoldsOnly directory (deposits ++ [deposit]) after := by
  obtain ⟨_,chosen,path,has,keeps⟩ := stores
  rw [found] at path
  cases path
  apply only.append keeps
  intro file bytes document node
  -- The document of the new deposit may take the place of an earlier one.
  by_cases same : file = Deposit.fileName deposit.name
  · refine .inr ⟨deposit,List.mem_singleton_self _,same,?_⟩
    have stored := has.node
    rw [keeps.here,← same,node] at stored
    cases stored
    rfl
  · refine .inl ⟨not_isReport document,?_⟩
    intro place
    exact same (by simpa using place)

section Analysis
variable {request : AnalyzeRequest} {made : Deposit} (plain : world.Plain)
include plain

theorem keeps_analyze (unmade : made? request world = none) :
    world.Keeps (fun place => ¬ Report.IsReport place) ((analyze request).run.run world).2 := by
  have comes := @comes_deposit world request plain
  rw [analyze,Action.run_bind]
  rw [made?] at unmade
  generalize (deposit request).run.run world = outcome at comes unmade ⊢
  obtain ⟨outcome,between⟩ := outcome
  match outcome, comes, unmade with
  | .error fault, keeps, _ => exact keeps.mono fun _ _ => trivial
  | .ok (.error answer), ends, _ => exact ends.2.mono fun _ _ => trivial

theorem stores_analyze (deposited : made? request world = some made) :
    Made (fun place => ¬ Report.IsReport place) request world made
      ((analyze request).run.run world).2 := by
  have comes := @comes_deposit world request plain
  rw [analyze,Action.run_bind]
  rw [made?] at deposited
  generalize (deposit request).run.run world = outcome at comes deposited ⊢
  obtain ⟨outcome,between⟩ := outcome
  match outcome, comes, deposited with
  | .ok (.ok stored), ⟨built,counted,stores⟩, deposited =>
    cases deposited
    refine ⟨built,counted,stores.sound,?_⟩
    obtain ⟨directory,path,has,keeps⟩ := stores.filed
    have last := within_conclude request made between
    refine ⟨directory,path,has.of_keeps last (not_isReport (Store.suffix_fileName _)),?_⟩
    exact trans_of (World.Keeps _) (keeps.mono fun _ kept => ⟨trivial,kept.2⟩)
      (last.mono fun _ kept => kept.1)

theorem concluded_of_success {answer : Json}
    (done : (analyze request).run.run world = (.ok answer,after))
    (success : answer.need "success" = .ok (.bool true)) :
    ∃ made between, made? request world = some made ∧
      (conclude request made).run.run between = (.ok answer,after) := by
  have comes := @comes_deposit world request plain
  rw [analyze] at done
  obtain ⟨outcome,between,first,done⟩ := Action.run_bind_ok done
  rw [first] at comes
  rw [made?,first]
  cases outcome with
  | error refused =>
    cases done
    rw [comes.1] at success
    cases success
  | ok made => exact ⟨made,between,rfl,done⟩

theorem made_of_success {answer : Json}
    (done : (analyze request).run.run world = (.ok answer,after))
    (success : answer.need "success" = .ok (.bool true)) :
    ∃ made, made? request world = some made ∧
      answer.need "repo" = .ok (.str ("local/" ++ made.name)) := by
  obtain ⟨made,between,deposited,concluded⟩ := concluded_of_success plain done success
  obtain ⟨more,rfl⟩ := answer_of_conclude concluded
  exact ⟨made,deposited,rfl⟩

end Analysis

/-- An answer whose flag of success is computed to be set is a success. -/
theorem success_of_flag {request : AnalyzeRequest}
    (flag : (((analyze request).run.run world).1.toOption.bind fun answer =>
      ((answer.need "success").bind Json.asFlag).toOption) = some true) :
    ∃ answer after, (analyze request).run.run world = (.ok answer,after) ∧
      answer.need "success" = .ok (.bool true) := by
  cases analyzed : (analyze request).run.run world with
  | mk outcome after =>
    rw [analyzed] at flag
    cases outcome with
    | error fault => cases flag
    | ok answer => exact ⟨answer,after,rfl,Json.eq_bool_of_asFlag flag⟩

end Query

end JavaAtlas
