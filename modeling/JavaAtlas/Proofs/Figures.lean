import JavaAtlas.Proofs.Damage
import JavaAtlas.Proofs.Ownership
import JavaAtlas.Proofs.Relations
import Mathlib.Data.List.Dedup

/-! Figures of an analysis. The list shows the analysis under its name once, with the figures of the
answer; but it counts the files that gave a unit, and the answer all files that were found. -/
namespace JavaAtlas

namespace Analysis
variable {disk : Disk} {here : Place} {model : Model} {name : String}

/-- The name of the unit that a file gives, if it can be read. -/
def unitName? (disk : Disk) (here : Place) (path : Path) : Option String :=
  match readSource disk here path with
  | .ok (some extraction) => some extraction.unit.qualifiedName
  | _ => none

theorem mem_keys_merge (isOpen : model.resolved = false) (path : Path) :
    (merge disk here model path).resolved = false ∧
      (name ∈ (merge disk here model path).units.keys ↔
        name ∈ model.units.keys ∨ unitName? disk here path = some name) := by
  rw [merge,unitName?]
  cases readSource disk here path with
  | error fault => exact ⟨isOpen,(or_iff_left (Option.some_ne_none name).symm).symm⟩
  | ok found =>
    cases found with
    | none => exact ⟨isOpen,(or_iff_left (Option.some_ne_none name).symm).symm⟩
    | some extraction =>
      dsimp only
      rw [Option.some_inj]
      rcases Model.add_cases isOpen extraction with ⟨absent,added⟩ | ⟨known,warning,added⟩
      · rw [added]
        refine ⟨isOpen,?_⟩
        change name ∈ (model.units.insert _ extraction.unit).keys ↔ _
        rw [OrderedMap.keys_insert,if_neg absent,List.mem_append,List.mem_singleton,eq_comm]
      · rw [added]
        refine ⟨isOpen,?_⟩
        change name ∈ model.units.keys ↔ _
        rw [or_iff_left_of_imp]
        rintro rfl
        exact known

theorem mem_keys_merged (isOpen : model.resolved = false) (paths : List Path) :
    (paths.foldl (merge disk here) model).resolved = false ∧
      (name ∈ (paths.foldl (merge disk here) model).units.keys ↔
        name ∈ model.units.keys ∨ name ∈ paths.filterMap (unitName? disk here)) := by
  induction paths generalizing model with
  | nil => simp [isOpen]
  | cons path rest ih =>
    obtain ⟨still,first⟩ := @mem_keys_merge disk here model name isOpen path
    obtain ⟨last,others⟩ := ih still
    refine ⟨last,?_⟩
    rw [List.foldl_cons,others,first,or_assoc]
    simp only [List.mem_filterMap,List.mem_cons,exists_eq_or_imp]

/-- There are as many units as different names. -/
theorem size_ofFiles (paths : List Path) :
    (ofFiles disk here paths).units.size =
      (paths.filterMap (unitName? disk here)).dedup.length := by
  have keys : (ofFiles disk here paths).units.keys =
      (paths.foldl (merge disk here) {}).units.keys := by
    rw [ofFiles_eq,Model.keys_related (merged_open disk here paths).1.coherent]
  have perm : (ofFiles disk here paths).units.keys.Perm
      (paths.filterMap (unitName? disk here)).dedup := by
    rw [keys,List.perm_ext_iff_of_nodup (OrderedMap.nodup_keys _) (List.nodup_dedup _)]
    intro name
    rw [(@mem_keys_merged disk here {} name rfl paths).2,List.mem_dedup]
    exact or_iff_right List.not_mem_nil
  rw [OrderedMap.size,← perm.length_eq,OrderedMap.keys,List.length_map]

/-- Each file gives a unit of its own exactly if there are as many units as files. -/
theorem size_eq_length_iff (paths : List Path) :
    (ofFiles disk here paths).units.size = paths.length ↔
      (∀ path ∈ paths, (unitName? disk here path).isSome = true) ∧
        (paths.filterMap (unitName? disk here)).Nodup := by
  have fewer := (List.dedup_sublist (paths.filterMap (unitName? disk here))).length_le
  have read := List.length_filterMap_le (unitName? disk here) paths
  rw [size_ofFiles,← List.filterMap_length_eq_length]
  constructor
  · intro same
    have whole : (paths.filterMap (unitName? disk here)).length = paths.length := by omega
    refine ⟨whole,?_⟩
    rw [← (List.dedup_sublist _).eq_of_length (same.trans whole.symm)]
    exact List.nodup_dedup _
  · rintro ⟨whole,distinct⟩
    rw [distinct.dedup,whole]

end Analysis

/-- Files that are found in their order are the sources. -/
theorem Discovery.sources_eq {disk : Disk} {here place : Place} {folder : Path}
    {maxFiles maxSize : Int} {found : List (List String)}
    (reached : disk.locate here folder = .ok place)
    (directory : disk.node? place = some .directory)
    (files : ((disk.filesBelow place).filter (isSource maxSize)).map Prod.fst = found)
    (ordered : found.Pairwise fun first second => comesBefore first second = true)
    (few : ¬ maxFiles < found.length) :
    sources disk here folder maxFiles maxSize = found.map fun parts => folder.join ⟨0,parts⟩ := by
  rw [sources,reached]
  dsimp only
  rw [if_pos (by rw [directory]; rfl),files,List.mergeSort_of_pairwise ordered,if_neg few]

namespace Store
open Query (Deposit)
variable {directory : Path} {world : World} {deposit : Deposit} {deposits : List Deposit}
  {file : String} {listed : Json}

/-- A store whose directory has no files holds nothing. -/
theorem holdsOnly_unused {chosen : Option String} (path : world.storeAt chosen = .ok directory)
    (absent : ∀ file, directory.place world.here ++ [file] ∉ world.disk.nodes.keys) :
    ∀ other, world.storeAt chosen = .ok other → HoldsOnly other [] world := by
  intro other chosen file bytes _ node
  cases path.symm.trans chosen
  have empty : world.disk.node? (directory.place world.here ++ [file]) = none := by
    rw [Disk.node?,if_neg (by simp),OrderedMap.get?_eq_none]
    exact absent file
  cases empty.symm.trans node

theorem nodup_names (disk : Disk) (place : Place) : (disk.names place).Nodup := by
  let named (other : Place) : Option String :=
    if other.dropLast == place && !other.isEmpty then other.getLast? else none
  have names : disk.names place = disk.nodes.keys.filterMap named := by
    rw [OrderedMap.keys,List.filterMap_map]
    rfl
  rw [names]
  refine List.Nodup.filterMap ?_ (OrderedMap.nodup_keys _)
  have whole (other : Place) (name : String) (found : name ∈ named other) :
      other = place ++ [name] := by
    change (if other.dropLast == place && !other.isEmpty then other.getLast? else none) =
      some name at found
    split at found
    · next inside =>
      rw [Bool.and_eq_true,beq_iff_eq] at inside
      rw [← inside.1]
      exact (List.dropLast_append_getLast? name found).symm
    · cases found
  intro first second name one two
  rw [whole first name one,whole second name two]

theorem nodup_documents (directory : Path) (world : World) : (documents directory world).Nodup :=
  (Text.perm_sorted _).nodup_iff.mpr ((nodup_names _ _).filter _)

/-- The file of a deposit is listed with the figures of its model. -/
theorem shown?_deposit (sound : deposit.Sound) (faithful : deposit.Faithful)
    (has : Has directory deposit world) : ∃ clock, deposit.analysis.analyzedAt = .str clock ∧
      shown? directory world (Deposit.fileName deposit.name) =
        some (described "local" deposit.name clock deposit.place.path.text
          deposit.model.units.size deposit.model.stats) := by
  obtain ⟨clock,analysis⟩ := sound.described
  have written := has.written
  rw [Deposit.bytes,analysis] at written
  rw [Deposit.Faithful,analysis] at faithful
  have tells := tells_saved faithful written
  rw [List.length_map,OrderedMap.values,List.length_map] at tells
  refine ⟨clock,by rw [analysis]; rfl,?_⟩
  rw [shown?,run_entryOf?_eq,finding,tells.finding_eq]
  rfl

/-- A deposit of the store is listed once. -/
theorem listed_once (only : HoldsOnly directory deposits world)
    (each : ∀ deposit ∈ deposits, deposit.Sound ∧ deposit.Faithful)
    (has : Has directory deposit world)
    (shown : shown? directory world (Deposit.fileName deposit.name) = some listed) :
    ∃ front back, (documents directory world).filterMap (shown? directory world) =
        front ++ listed :: back ∧
      ∀ other ∈ front ++ back, ∃ name, name ≠ deposit.name ∧ Lists other name := by
  have document := mem_documents.mpr ⟨⟨_,has.node⟩,suffix_fileName deposit.name⟩
  obtain ⟨front,back,files⟩ := List.append_of_mem document
  have distinct := nodup_documents directory world
  rw [files,List.nodup_middle,List.nodup_cons] at distinct
  refine ⟨_,_,by rw [files,List.filterMap_append,List.filterMap_cons_some shown],?_⟩
  rw [← List.filterMap_append]
  intro other member
  obtain ⟨file,inside,found⟩ := List.mem_filterMap.mp member
  have apart : file ≠ Deposit.fileName deposit.name := fun same => distinct.1 (same ▸ inside)
  have known : file ∈ documents directory world := by
    rw [files]
    exact List.perm_middle.mem_iff.mpr (List.mem_cons_of_mem _ inside)
  obtain ⟨stored,_,named,lists⟩ :=
    (run_document only each (mem_documents.mp known).2).2 other found
  exact ⟨stored.name,fun same => apart (same ▸ named),lists⟩

end Store

namespace Query
variable {request : AnalyzeRequest} {world after : World} {deposits : List Deposit} {answer : Json}

theorem size_summarized (world : World) (useAssistant : Bool) (model : Model) :
    (summarized world useAssistant model).units.size = model.units.size := by
  have keys := congrArg List.length (Model.keys_refill model.units.entries
    (Summary.all useAssistant (if world.settings.assistantAvailable then some world.assistant
      else none) model.methods).1)
  rwa [List.length_map,List.length_map] at keys

/-- The names of the figures that the answer and the list have in common. -/
def figures : List String :=
  ["repo","analyzed_at","package_count","class_count","method_count","endpoint_count","enum_count"]

theorem run_listing {directory : Path} {chosen : Option String}
    (path : world.storeAt chosen = .ok directory)
    (opened : world.disk.HasDirectory world.here directory)
    (only : Store.HoldsOnly directory deposits world)
    (each : ∀ deposit ∈ deposits, deposit.Sound ∧ deposit.Faithful) :
    let entries := (Store.documents directory world).filterMap (Store.shown? directory world)
    (listing chosen).run.run world =
      (.ok (.obj [("count",.ofNat entries.length),("analyses",.arr entries)]),world) := by
  intro entries
  rw [listing,Action.run_bind,Store.run_openAt_again path opened]
  dsimp only
  rw [Action.run_bind,Store.run_list opened only each]
  rfl

section After
variable {made : Deposit} (plain : world.Plain)
  (only : ∀ directory, world.storeAt (request.chosen world) = .ok directory →
    Store.HoldsOnly directory deposits world)
  (each : ∀ deposit ∈ deposits, deposit.Sound ∧ deposit.model.stats.Small)
include plain only each

/-- After an analysis its deposit is listed once. -/
theorem run_listing_after (deposited : made? request world = some made)
    (small : made.model.stats.Small) : ∃ clock front entries back,
      made.analysis.analyzedAt = .str clock ∧
      entries = front ++ Store.described "local" made.name clock made.place.path.text
        made.model.units.size made.model.stats :: back ∧
      (listing (request.chosen world)).run.run ((analyze request).run.run world).2 =
        (.ok (.obj [("count",.ofNat entries.length),("analyses",.arr entries)]),
          ((analyze request).run.run world).2) ∧
      ∀ other ∈ front ++ back, ∃ name, name ≠ made.name ∧ Store.Lists other name := by
  have stores := (stores_analyze plain deposited).stores
  obtain ⟨directory,path,has,keeps⟩ := stores.filed
  have faithful := made.faithful stores.sound small
  have sole := stores.holdsOnly path (only directory path)
  have every : ∀ deposit ∈ deposits ++ [made], deposit.Sound ∧ deposit.Faithful := by
    rw [List.forall_mem_append,List.forall_mem_singleton]
    refine ⟨fun deposit member => ?_,stores.sound,faithful⟩
    obtain ⟨sound,few⟩ := each deposit member
    exact ⟨sound,deposit.faithful sound few⟩
  obtain ⟨clock,stamped,shown⟩ := Store.shown?_deposit stores.sound faithful has
  obtain ⟨front,back,entries,others⟩ := Store.listed_once sole every has shown
  have run := run_listing ((keeps.storeAt _).trans path) has.opened sole every
  exact ⟨clock,front,_,back,stamped,entries,run,others⟩

/-- After an analysis that succeeded, in a store that holds nothing but analyses of folders, the
list has one entry under the name that was answered, and all figures of the entry are those of the
answer but the number of files: the entry counts the files that gave a unit, the answer those that
were found. They are as many if each file that was found gave a unit of its own. -/
theorem listing_agrees (analyzed : (analyze request).run.run world = (.ok answer,after))
    (success : answer.need "success" = .ok (.bool true)) :
    ∃ made specificClass, made? request world = some made ∧ Built request world made ∧
      classNameOf request.specificClass = .ok specificClass ∧
      (made.model.stats.Small → ∃ front listed back,
        (listing (request.chosen world)).run.run after =
          (.ok (.obj [("count",.ofNat (front ++ listed :: back).length),
            ("analyses",.arr (front ++ listed :: back))]),after) ∧
        (∀ other ∈ front ++ back, other.need "repo" ≠ answer.need "repo") ∧
        (∀ key ∈ figures, ∃ value, answer.need key = .ok value ∧ listed.need key = .ok value) ∧
        (∃ root, answer.need "folder_path" = .ok root ∧ listed.need "source_root" = .ok root) ∧
        let files := sourcesFor world made.place.path specificClass
        let names := files.filterMap (Analysis.unitName? world.disk world.here)
        answer.need "file_count" = .ok (.ofNat files.length) ∧
          listed.need "file_count" = .ok (.ofNat names.dedup.length) ∧
          (names.dedup.length = files.length ↔
            (∀ file ∈ files, (Analysis.unitName? world.disk world.here file).isSome = true) ∧
              names.Nodup)) := by
  obtain ⟨made,between,deposited,concluded⟩ := concluded_of_success plain analyzed success
  obtain ⟨more,rfl⟩ := answer_of_conclude concluded
  obtain ⟨built,counted,_⟩ := stores_analyze plain deposited
  obtain ⟨specificClass,named,model⟩ := built.model
  refine ⟨made,specificClass,deposited,built,named,?_⟩
  intro small
  obtain ⟨clock,front,_,back,stamped,rfl,run,others⟩ :=
    run_listing_after plain only each deposited small
  rw [analyzed] at run
  have size : made.model.units.size = ((sourcesFor world made.place.path specificClass).filterMap
      (Analysis.unitName? world.disk world.here)).dedup.length := by
    rw [model,size_summarized,Analysis.size_ofFiles]
  refine ⟨front,_,back,run,?_,?_,⟨_,rfl,rfl⟩,?_,?_,?_⟩
  · intro other member same
    obtain ⟨name,apart,lists⟩ := others other member
    exact apart (Store.lists_once lists same)
  · simp only [figures,List.forall_mem_cons]
    refine ⟨⟨_,rfl,rfl⟩,⟨_,rfl,?_⟩,⟨_,rfl,rfl⟩,⟨_,rfl,rfl⟩,⟨_,rfl,rfl⟩,⟨_,rfl,rfl⟩,
      ⟨_,rfl,rfl⟩,nofun⟩
    rw [stamped]
    rfl
  · rw [← counted specificClass named]
    rfl
  · rw [← size]
    rfl
  · rw [← Analysis.size_ofFiles]
    exact Analysis.size_eq_length_iff _

end After

/-- A folder with one type, and a store that is empty. -/
theorem listing_agrees_single :
    let world : World := {disk.nodes := .ofList [(["src"],.directory),
      (["src","A.java"],.file (Text.Utf8.encode "package p; class A {}".toList))]}
    let request : AnalyzeRequest := {path := .str "src",storagePath := some "store"}
    ∃ answer after front listed back, (analyze request).run.run world = (.ok answer,after) ∧
      (listing (some "store")).run.run after =
        (.ok (.obj [("count",.ofNat (front ++ listed :: back).length),
          ("analyses",.arr (front ++ listed :: back))]),after) ∧
      listed.need "repo" = answer.need "repo" ∧
      listed.need "file_count" = answer.need "file_count" := by
  intro world request
  have succeeds : (((analyze request).run.run world).1.toOption.bind fun answer =>
      ((answer.need "success").bind Json.asFlag).toOption) = some true := by decide +kernel
  have stored : (made? request world).map (fun made => (made.place,made.model.stats)) =
      some (["src"],⟨1,1,0,0,0⟩) := by decide +kernel
  have own : (∀ file ∈ sourcesFor world ⟨1,["src"]⟩ none,
      (Analysis.unitName? world.disk world.here file).isSome = true) ∧
      ((sourcesFor world ⟨1,["src"]⟩ none).filterMap
        (Analysis.unitName? world.disk world.here)).Nodup := by decide +kernel
  have path : world.storeAt (request.chosen world) = .ok ⟨0,["store"]⟩ := rfl
  have keys : world.disk.nodes.keys = [["src"],["src","A.java"]] := by decide +kernel
  have only : ∀ directory, world.storeAt (request.chosen world) = .ok directory →
      Store.HoldsOnly directory [] world := by
    refine Store.holdsOnly_unused path fun file => ?_
    change ["store",file] ∉ _
    rw [keys]
    simp
  have plain : world.Plain := nofun
  have chosen : request.chosen world = some "store" := by decide +kernel
  have unnamed : classNameOf request.specificClass = .ok none := rfl
  have small : Model.Stats.Small ⟨1,1,0,0,0⟩ := by decide
  clear_value world request
  obtain ⟨answer,after,analyzed,success⟩ := success_of_flag succeeds
  obtain ⟨made,specificClass,deposited,built,named,listed⟩ :=
    listing_agrees plain only nofun analyzed success
  rw [deposited] at stored
  obtain ⟨place,stats⟩ := Prod.mk.inj (Option.some.inj stored)
  cases unnamed.symm.trans named
  obtain ⟨front,entry,back,run,_,shared,_,found,counted,same⟩ := listed (stats ▸ small)
  rw [chosen] at run
  rw [place] at found counted same
  obtain ⟨repo,answered,shown⟩ := shared "repo" List.mem_cons_self
  refine ⟨answer,after,front,entry,back,analyzed,run,shown.trans answered.symm,?_⟩
  rw [counted,found,same.mpr own]

/-- Of two files with the same type the answer counts both, and the list one. -/
theorem listing_counts_fewer :
    let source := Node.file (Text.Utf8.encode "package p; class A {}".toList)
    let world : World := {disk.nodes := .ofList [(["src"],.directory),(["src","a"],.directory),
      (["src","a","A.java"],source),(["src","b"],.directory),(["src","b","A.java"],source)]}
    let request : AnalyzeRequest := {path := .str "src",storagePath := some "store"}
    ∃ answer after front listed back, (analyze request).run.run world = (.ok answer,after) ∧
      answer.need "success" = .ok (.bool true) ∧
      (listing (some "store")).run.run after =
        (.ok (.obj [("count",.ofNat (front ++ listed :: back).length),
          ("analyses",.arr (front ++ listed :: back))]),after) ∧
      listed.need "repo" = answer.need "repo" ∧
      answer.need "file_count" = .ok (.ofNat 2) ∧ listed.need "file_count" = .ok (.ofNat 1) := by
  intro source world request
  have sources : sourcesFor world ⟨1,["src"]⟩ none =
      [⟨1,["src","a","A.java"]⟩,⟨1,["src","b","A.java"]⟩] :=
    @Discovery.sources_eq world.disk world.here ["src"] ⟨1,["src"]⟩ world.settings.maxFiles
      Discovery.defaultMaxSize [["a","A.java"],["b","A.java"]] rfl rfl (by decide +kernel)
      (by decide +kernel) (by decide +kernel)
  have run : (deposit request).run.run world = (depositFiles request ["src"]
      [⟨1,["src","a","A.java"]⟩,⟨1,["src","b","A.java"]⟩]).run.run world := by
    rw [← sources]
    exact run_deposit rfl rfl rfl rfl rfl
  have succeeds : (((analyze request).run.run world).1.toOption.bind fun answer =>
      ((answer.need "success").bind Json.asFlag).toOption) = some true := by
    rw [analyze,Action.run_bind,run]
    decide +kernel
  have stored : (made? request world).map (fun made => (made.fileCount,made.model.stats)) =
      some (2,⟨1,1,0,0,0⟩) := by
    rw [made?,run]
    decide +kernel
  have path : world.storeAt (request.chosen world) = .ok ⟨0,["store"]⟩ := rfl
  have keys : world.disk.nodes.keys = [["src"],["src","a"],["src","a","A.java"],["src","b"],
      ["src","b","A.java"]] := by decide +kernel
  have only : ∀ directory, world.storeAt (request.chosen world) = .ok directory →
      Store.HoldsOnly directory [] world := by
    refine Store.holdsOnly_unused path fun file => ?_
    change ["store",file] ∉ _
    rw [keys]
    simp
  have plain : world.Plain := nofun
  have chosen : request.chosen world = some "store" := by decide +kernel
  have small : Model.Stats.Small ⟨1,1,0,0,0⟩ := by decide
  clear_value world request
  obtain ⟨answer,after,analyzed,success⟩ := success_of_flag succeeds
  obtain ⟨made,_,deposited,concluded⟩ := concluded_of_success plain analyzed success
  obtain ⟨more,rfl⟩ := answer_of_conclude concluded
  rw [deposited] at stored
  obtain ⟨fileCount,stats⟩ := Prod.mk.inj (Option.some.inj stored)
  obtain ⟨clock,front,_,back,_,rfl,listed,_⟩ :=
    run_listing_after plain only nofun deposited (stats ▸ small)
  rw [analyzed,chosen] at listed
  have size : made.model.units.size = 1 := congrArg Model.Stats.classCount stats
  refine ⟨_,after,front,_,back,analyzed,success,listed,rfl,?_,?_⟩
  · rw [← fileCount]
    rfl
  · rw [← size]
    rfl

end Query

end JavaAtlas
