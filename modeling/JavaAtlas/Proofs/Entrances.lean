import JavaAtlas.CommandLine.Run
import JavaAtlas.Proofs.Writing

/-! The command and the analysis on request. They reach a folder by different paths, and write the
same reports, unless the path of the command, as it is written, does not lead there, or the level of
its settings is refused. -/
namespace JavaAtlas

/-- No part of the path is a step to a parent, and it does not begin with two slashes. -/
def Path.Direct (path : Path) : Prop := path.slashes ≤ 1 ∧ ".." ∉ path.parts

/-- A world as it can be: it is seen from a place on the disk, where all is found by its names. -/
structure World.Real (world : World) : Prop where
  plain : world.Plain
  here : ".." ∉ world.here
  whole : world.disk.Whole

namespace World.Real
variable {world : World} {folder : Path}

theorem down (real : world.Real) (path : Path) : ".." ∉ path.place world.here := by
  have start : ".." ∉ (if path.slashes == 0 then world.here else []) := by
    split
    · exact real.here
    · exact List.not_mem_nil
  change ".." ∉ path.parts.foldl Place.step _
  refine List.foldlRecOn path.parts Place.step (motive := fun place => ".." ∉ place) start ?_
  intro place down part _
  by_cases above : part = ".."
  · rw [Place.step,if_pos (by simpa using above)]
    exact fun member => down (List.mem_of_mem_dropLast member)
  · rw [Place.step_of_ne above,List.mem_append,List.mem_singleton]
    exact not_or.mpr ⟨down,Ne.symm above⟩

/-- A direct path leads to the place that it means by its text. -/
theorem sees_direct (real : world.Real) (direct : folder.Direct)
    (sees : world.Sees (folder.place world.here).path (folder.place world.here)) :
    world.Sees folder (folder.place world.here) := by
  obtain ⟨slashes,parts⟩ := folder
  obtain ⟨single,down⟩ := direct
  match slashes with
  | 1 =>
    have place : (Path.mk 1 parts).place world.here = parts := Place.foldl_step down []
    rw [place] at sees ⊢
    exact sees
  | 0 =>
    have place : (Path.mk 0 parts).place world.here = world.here ++ parts :=
      Place.foldl_step down world.here
    rw [place] at sees ⊢
    obtain ⟨reached,directory,looked⟩ := sees
    have fits := (Discovery.lookThrough_iff reached).mp looked
    obtain ⟨clean,short,walk⟩ := Disk.locate_iff.mp reached
    obtain ⟨middle,first,last⟩ := Disk.walk_append_iff.mp walk
    have same : middle = world.here := (Disk.place_of_walk first).trans
      (Place.foldl_step real.here [])
    have located : world.disk.locate world.here ⟨0,parts⟩ = .ok (world.here ++ parts) := by
      refine Disk.locate_iff.mpr ⟨?_,?_,same ▸ last⟩
      · have both := Path.hasNull_join ⟨1,world.here⟩ parts
        rw [show (Path.mk 1 world.here).join ⟨0,parts⟩ = (world.here ++ parts).path from rfl,clean]
          at both
        exact (Bool.or_eq_false_iff.mp both.symm).2
      · by_cases given : parts = []
        · rw [given]
          decide
        · exact (Path.size_le given 1 world.here).trans short
    refine ⟨located,directory,(Discovery.lookThrough_iff located).mpr ?_⟩
    intro below member
    refine le_trans ?_ (fits below member)
    have given : parts ++ below ≠ [] :=
      List.append_ne_nil_of_right_ne_nil _ (Disk.mem_below.mp member).1
    have longer := Path.size_le given 1 world.here
    rw [← List.append_assoc] at longer
    exact longer

end World.Real

namespace CommandLine
variable {α β : Type} {world start : World}

theorem run_then {command : Command α} {value : α} {after : World}
    (done : command.run.run world = (.ok value,after)) (next : α → Command β) :
    (command >>= next).run.run world = (next value).run.run after := by
  unfold ExceptT.run StateT.run at *
  simp only [bind,ExceptT.bind,ExceptT.mk,StateT.bind]
  rw [done]
  rfl

theorem run_discard {command : Command α} {value : α} {after : World}
    (done : command.run.run world = (.ok value,after)) :
    (discard command).run.run world = (.ok (),after) :=
  run_then done fun _ => pure ()

theorem run_needed (flag : Flag) (value : α) (world : World) :
    (needed flag (some value)).run.run world = (.ok value,world) := rfl

/-- Every level that is offered for the option is accepted. -/
theorem checkLevel_offered : ∀ level ∈ logLevels, checkLevel level = .ok () := by decide

theorem run_checked {name : String} (leveled : checkLevel name = .ok ()) (world : World) :
    (MonadExcept.ofExcept ((checkLevel name).mapError Break.noValue) : Command Unit).run.run world =
      (.ok (),world) := by
  rw [leveled]
  rfl

theorem run_get (world : World) : (get : Command World).run.run world = (.ok world,world) := rfl

theorem run_act {action : Action α} {value : α} {after : World}
    (done : action.run.run world = (.ok value,after)) :
    (act action).run.run world = (.ok value,after) := by
  change (match action.run.run world with
    | (result,after) => (result.mapError Break.fault,after) : Except Break α × World) = _
  rw [done]
  rfl

theorem run_summarize_plain (model : Model) (world : World) :
    (Query.summarize false model).run.run world =
      (.ok (model.withMethods (Summary.plain model.methods)),world) := by
  rw [Query.summarize,Action.run_bind,Action.run_get]
  dsimp only
  cases world.settings.assistantAvailable <;> rfl

/-- A folder that can be looked through, and in which a source is found, is reported. -/
theorem run_analyze {arguments : Arguments} {folder : Path} {place : Place} {level output : String}
    {workers : Int} {model : Model} {written : List Path} {last : World}
    (logged : arguments.logLevel = some level) (leveled : checkLevel level = .ok ())
    (busy : arguments.workers = some workers) (directed : arguments.outputDir = some output)
    (alone : arguments.useAssistant = false)
    (expanded : start.expandHome (Path.ofText arguments.sourceDir) = .ok folder)
    (sees : start.Sees folder place)
    (given : Query.sourcesFor start folder arguments.specificClass ≠ [])
    (built : Analysis.ofFiles start.disk start.here
      (Query.sourcesFor start folder arguments.specificClass) = model)
    (done : (Report.writeAll (model.withMethods (Summary.plain model.methods))
      (Path.ofText output)).run.run start = (.ok written,last)) :
    (analyze arguments).run.run start = (.ok .success,last) := by
  have expands : (Action.expandHome (Path.ofText arguments.sourceDir)).run.run start =
      (.ok folder,start) := by
    rw [Action.expandHome,Action.run_bind,Action.run_get]
    dsimp only
    rw [expanded]
    rfl
  have directory : (Action.isDirectory folder).run.run start = (.ok true,start) := by
    have there : start.disk.find? start.here folder = .ok (some .directory) := by
      rw [Disk.find?,sees.reached]
      exact congrArg Except.ok sees.directory
    rw [Action.isDirectory,Action.run_bind,Action.run_find?,there]
    rfl
  have found : (Query.findSources folder arguments.specificClass).run.run start =
      (.ok (Query.sourcesFor start folder arguments.specificClass),start) := by
    rw [Query.run_findSources,sees.looked]
  have reports : (report arguments
      (Query.sourcesFor start folder arguments.specificClass)).run.run start =
        (.ok .success,last) := by
    rw [report,busy,directed,alone,run_then (run_discard (run_needed _ _ _)),
      run_then (run_get start),built,run_then (run_act (run_summarize_plain _ start)),
      run_then (run_needed _ _ _),run_then (run_discard (run_act done))]
    rfl
  rw [analyze,logged,run_then (run_needed _ _ _),run_then (run_checked leveled _),
    run_then (run_act expands),run_then (run_act directory),if_pos rfl,run_then (run_act found),
    if_neg (by simpa using given)]
  exact reports

/-- The text cannot be taken for an option. -/
def Bare (text : String) : Prop := text.toList.head? ≠ some '-'

instance (text : String) : Decidable (Bare text) := inferInstanceAs (Decidable (_ ≠ _))

theorem classify_bare {text : String} (bare : Bare text) : classify text = some (.plain text) := by
  rw [classify]
  dsimp only
  rw [if_pos (by simpa [Bare] using bare)]

theorem classifyAll_cons {text : String} {item : Item} (form : classify text = some item)
    (rest : List String) :
    classifyAll (text :: rest) = (classifyAll rest).map (item :: ·) := by
  have other : text ≠ "--" := by
    rintro rfl
    exact absurd form (by rw [show classify "--" = none by decide]; exact nofun)
  rw [classifyAll,if_neg (by simpa using other),form,Option.bind_some]

/-- The number of workers as an option: not at all, or with a number in one word or in two. -/
inductive WorkersOption : List String → Prop
  | absent : WorkersOption []
  | apart {value : String} {number : Int} (reads : Text.integer? value.toList = some number)
      (plain : classify value = some (.plain value)) : WorkersOption ["--workers",value]
  | joined {value : String} {number : Int} (reads : Text.integer? value.toList = some number) :
      WorkersOption ["--workers=" ++ value]

theorem classify_workers (value : String) :
    classify ("--workers=" ++ value) = some (.option (some .workers) false (some value)) := by
  have chars : ("--workers=" ++ value).toList = "--workers".toList ++ '=' :: value.toList := by
    rw [String.toList_append]
    rfl
  have divided : divideValue ("--workers".toList ++ '=' :: value.toList) =
      ("--workers".toList,some value.toList) := by
    have solid : ∀ c ∈ "--workers".toList, (c != '=') = true := by decide
    rw [divideValue,if_pos (by simp),Text.takeWhile_stop solid rfl,Text.dropWhile_stop solid rfl]
    rfl
  have unknown : flagNames.lookup ("--workers=" ++ value) = none := by
    rw [List.lookup_eq_none_iff]
    intro entry member
    have solid : ∀ entry ∈ flagNames, '=' ∉ entry.1.toList := by decide
    rw [bne_iff_ne]
    intro same
    apply solid entry member
    rw [← same,chars]
    simp
  have long : (("--workers".toList ++ '=' :: value.toList).length == 1) = false := by
    have nine : "--workers".toList.length = 9 := by decide
    rw [beq_eq_false_iff_ne,List.length_append,nine]
    omega
  rw [classify]
  dsimp only
  rw [chars,if_neg (by simp),unknown]
  dsimp only
  rw [long,if_neg Bool.false_ne_true,divided]
  dsimp only
  rw [show flagNames.lookup (String.ofList "--workers".toList) = some Flag.workers by decide]
  dsimp only
  rw [String.ofList_toList]
  rfl

/-- Where an option does not change what may come, the number of workers changes alone. -/
theorem workers_taken {words : List String} (option : WorkersOption words) :
    ∃ items, (∀ rest, classifyAll (words ++ rest) = (classifyAll rest).map (items ++ ·)) ∧
      ∀ progress : Progress, progress.takeOption = progress → progress.workers.isSome = true →
        ∃ workers, ∀ rest,
          consume (items ++ rest) progress = consume rest {progress with workers := some workers} := by
  have takes : Flag.workers.takesValue = true := rfl
  cases option with
  | absent =>
    refine ⟨[],fun rest => by simp,?_⟩
    intro progress _ known
    obtain ⟨workers,same⟩ := Option.isSome_iff_exists.mp known
    exact ⟨workers,fun rest => by rw [← same]; rfl⟩
  | @apart value number reads plain =>
    refine ⟨[.option (some .workers) false none,.plain value],?_,?_⟩
    · intro rest
      rw [List.cons_append,@classifyAll_cons _ (.option (some .workers) false none) (by decide),
        List.cons_append,classifyAll_cons plain,Option.map_map]
      rfl
    · intro progress same _
      refine ⟨number,fun rest => ?_⟩
      rw [List.cons_append,List.singleton_append,consume,if_pos takes,same,Progress.setValue,reads]
      rfl
  | @joined value number reads =>
    refine ⟨[.option (some .workers) false (some value)],?_,?_⟩
    · intro rest
      rw [List.cons_append,classifyAll_cons (classify_workers value)]
      rfl
    · intro progress same _
      refine ⟨number,fun rest => ?_⟩
      have given : value ≠ "--" := by
        rintro rfl
        rw [show Text.integer? "--".toList = none by decide] at reads
        cases reads
      rw [List.singleton_append,consume,if_pos takes,same,Progress.setWritten,
        if_neg (by simpa using given),Progress.setValue,reads]
      rfl

/-- The folder, perhaps a class, and the directory for reports, with workers before or behind. -/
theorem parse_command (settings : Settings) {source target : String}
    {specificClass : Option String} {front back : List String} (bareSource : Bare source)
    (bareTarget : Bare target) (bareClass : ∀ name ∈ specificClass, Bare name)
    (before : WorkersOption front) (behind : WorkersOption back) :
    ∃ workers, parse settings
      (front ++ source :: (specificClass.toList ++ "--output-dir" :: target :: back)) =
        .run ⟨source,specificClass,some target,some workers,false,some settings.logLevel⟩ := by
  obtain ⟨first,frontItems,takeFront⟩ := workers_taken before
  obtain ⟨last,backItems,takeBack⟩ := workers_taken behind
  have end_ : classifyAll back = some last := by
    have whole := backItems []
    rwa [List.append_nil,classifyAll,Option.map_some,List.append_nil] at whole
  have tail : classifyAll ("--output-dir" :: target :: back) =
      some (.option (some .outputDir) false none :: .plain target :: last) := by
    rw [@classifyAll_cons _ (.option (some .outputDir) false none) (by decide),
      classifyAll_cons (classify_bare bareTarget),end_]
    rfl
  have named : classifyAll (specificClass.toList ++ "--output-dir" :: target :: back) =
      some (specificClass.toList.map .plain ++
        .option (some .outputDir) false none :: .plain target :: last) := by
    cases specificClass with
    | none => exact tail
    | some name =>
      rw [Option.toList_some,List.singleton_append,
        classifyAll_cons (classify_bare (bareClass name rfl)),tail]
      rfl
  obtain ⟨most,taken⟩ := takeFront ⟨.folder,"",none,some settings.outputDir,
    some settings.maxWorkers,false,some settings.logLevel,false⟩ rfl rfl
  obtain ⟨workers,rest⟩ := takeBack ⟨.closed,source,specificClass,some target,some most,false,
    some settings.logLevel,false⟩ rfl rfl
  have finished := rest []
  rw [List.append_nil] at finished
  refine ⟨workers,?_⟩
  rw [parse,frontItems,classifyAll_cons (classify_bare bareSource),named]
  change consume (first ++ .plain source :: _) _ = _
  rw [taken]
  cases specificClass with
  | none => exact finished
  | some name =>
    have given : name ≠ "--" := by
      rintro rfl
      exact bareClass _ rfl (by decide)
    change consume (.option (some .outputDir) false none :: .plain target :: last)
      ⟨.afterClass,source,if name == "--" then none else some name,some settings.outputDir,
        some most,false,some settings.logLevel,false⟩ = _
    rw [if_neg (by simpa using given)]
    exact finished

end CommandLine

theorem Action.place_of_resolve {world after : World} {path : Path} {place : Place}
    (resolved : (resolve path).run.run world = (.ok place,after)) :
    ∃ expanded, world.expandHome path = .ok expanded ∧ place = expanded.place world.here := by
  rw [resolve,expandHome,run_bind,run_bind,run_get] at resolved
  dsimp only at resolved
  cases expands : world.expandHome path with
  | error fault =>
    rw [expands] at resolved
    cases resolved
  | ok expanded =>
    rw [expands] at resolved
    dsimp only at resolved
    refine ⟨expanded,rfl,?_⟩
    change (if expanded.hasNull then _ else _ : Action Place).run.run world = _ at resolved
    split at resolved
    · cases resolved
    · cases resolved
      rfl

namespace Query
variable {request : AnalyzeRequest} {world start after : World} {made : Deposit} {answer : Json}
  {source output target : String} {folder : Path} {specificClass : Option String}

theorem sees_of_find? {place : Place} (down : ".." ∉ place)
    (found : world.disk.find? world.here place.path = .ok (some .directory))
    (looked : Discovery.lookThrough world.disk world.here place.path = .ok ()) :
    world.Sees place.path place := by
  rw [Disk.find?] at found
  split at found
  · next other reached =>
    have same : other = place := (Disk.place_of_locate reached).trans (Place.foldl_step down [])
    subst same
    exact ⟨reached,Except.ok.inj found,looked⟩
  · cases found
  · cases found

/-- The folder of a deposit was looked through, and sources were found in it. -/
theorem seen_of_made (real : world.Real) (deposited : made? request world = some made) :
    world.Sees made.place.path made.place ∧ ∃ specificClass,
      classNameOf request.specificClass = .ok specificClass ∧
        sourcesFor world made.place.path specificClass ≠ [] := by
  obtain ⟨⟨⟨path,asked,resolved⟩,specificClass,named,_⟩,_,_⟩ := stores_analyze real.plain deposited
  obtain ⟨expanded,_,place⟩ := Action.place_of_resolve resolved
  have down : ".." ∉ made.place := place ▸ real.down expanded
  rw [made?] at deposited
  split at deposited
  · next one stored =>
    cases deposited
    have run : (deposit request).run.run world =
        (.ok (.ok made),((deposit request).run.run world).2) := Prod.ext stored rfl
    generalize ((deposit request).run.run world).2 = between at run
    rw [deposit] at run
    obtain ⟨_,_,first,run⟩ := Action.run_bind_ok run
    rw [asked] at first
    cases first
    obtain ⟨_,_,second,run⟩ := Action.run_bind_ok run
    rw [resolved] at second
    cases second
    obtain ⟨node,_,third,run⟩ := Action.run_bind_ok run
    rw [Action.run_find?] at third
    split at third
    · next there =>
      cases third
      cases node with
      | none => cases run
      | some node =>
        cases node with
        | file bytes => cases run
        | directory =>
          obtain ⟨_,_,fourth,run⟩ := Action.run_bind_ok run
          rw [named] at fourth
          cases fourth
          obtain ⟨_,_,fifth,run⟩ := Action.run_bind_ok run
          rw [run_findSources] at fifth
          split at fifth
          · next looked =>
            cases fifth
            refine ⟨sees_of_find? down there looked,specificClass,named,?_⟩
            intro empty
            rw [depositFiles,empty] at run
            cases run
          · cases fifth
    · cases third
  · cases deposited

/-- The reports were written by the analysis. -/
def Reported (request : AnalyzeRequest) (world : World) (output : String) (written : List Path)
    (after : World) : Prop :=
  ∃ made between, made? request world = some made ∧
    (Report.writeAll made.model (Path.ofText output)).run.run between = (.ok written,after)

theorem reported_of_concluded {between : World} (reported : request.outputDir = .str output)
    (given : output ≠ "") (concluded : (conclude request made).run.run between = (.ok answer,after)) :
    ∃ written, (Report.writeAll made.model (Path.ofText output)).run.run between =
      (.ok written,after) := by
  rw [conclude] at concluded
  obtain ⟨reports,middle,first,last⟩ := Action.run_bind_ok concluded
  cases last
  have isGiven : (Json.str output).isGiven = true := by simpa [Json.isGiven] using given
  rw [writeReports,reported,if_pos isGiven] at first
  obtain ⟨path,_,asked,first⟩ := Action.run_bind_ok first
  cases asked
  obtain ⟨written,_,wrote,first⟩ := Action.run_bind_ok first
  cases first
  exact ⟨written,wrote⟩

/-- An empty name of a class stands for none, however it is given. -/
theorem sourcesFor_named {given : Option String} (world : World) (folder : Path)
    (named : classNameOf (Json.ofOption specificClass) = .ok given) :
    sourcesFor world folder given = sourcesFor world folder specificClass := by
  cases specificClass with
  | none =>
    cases named
    rfl
  | some name =>
    cases named
    by_cases empty : name.isEmpty
    · rw [sourcesFor,sourcesFor,if_pos empty,Option.filter_some,empty]
      rfl
    · rw [if_neg empty]

theorem not_source_of_ends {above : Place} {name : String} {tail : List Char}
    (ends : '.' :: tail <:+ name.toList) (solid : '.' ∉ tail) (other : tail ≠ "java".toList) :
    ¬ Discovery.IsSource (above ++ [name]) := by
  rintro ⟨others,last,same,java⟩
  obtain ⟨front,chars⟩ := ends
  rw [← (List.cons.inj (List.append_inj' same rfl).2).1,Discovery.languageOf?] at java
  split at java
  · next suffix =>
    rw [beq_iff_eq,Path.suffix,← chars,Text.afterLast_append,Text.afterLast_of_not_mem solid]
      at suffix
    split at suffix
    · exact absurd suffix (by decide)
    · have texts := congrArg String.toList suffix
      rw [String.toList_ofList] at texts
      exact other (List.cons.inj texts).2
  · cases java

/-- Neither reports nor documents are sources. -/
theorem not_kept_of_source {place : Place} (source : Discovery.IsSource place) (directory : Place)
    (name : String) :
    ¬ Report.IsReport place ∧ place ≠ directory ++ [Deposit.fileName name] := by
  constructor
  · rintro ⟨above,last,rfl,ends⟩
    exact not_source_of_ends ends (by decide) (by decide) source
  · rintro rfl
    have ends : ".json".toList <:+ (Deposit.fileName name).toList := by
      rw [Deposit.fileName,String.toList_append]
      exact List.suffix_append _ _
    exact not_source_of_ends ends (by decide) (by decide) source

/-- The path of the command leads to the folder: it is direct, or it can be looked through as it is
written. -/
def Leads (folder : Path) (world start : World) : Prop :=
  folder.Direct ∧ start = world ∨ ∃ place, start.Sees folder place

section Made
variable (real : world.Real) (deposited : made? request world = some made)
include real deposited

theorem place_of_made (asked : request.path = .str source)
    (expanded : world.expandHome (Path.ofText source) = .ok folder) :
    made.place = folder.place world.here := by
  obtain ⟨path,pathed,resolved⟩ := (stores_analyze real.plain deposited).built.folder
  obtain ⟨expansion,expands,place⟩ := Action.place_of_resolve resolved
  rw [asked] at pathed
  cases pathed
  rw [expanded] at expands
  cases expands
  exact place

/-- After an analysis the sources are as they were for it. -/
theorem keeps_sources :
    world.Keeps Discovery.IsSource ((analyze request).run.run world).2 := by
  obtain ⟨directory,_,_,keeps⟩ := (stores_analyze real.plain deposited).stores.filed
  exact keeps.mono fun place source => not_kept_of_source source _ _

theorem solid_made : ∀ unit ∈ made.model.units.values, unit.Solid := by
  obtain ⟨specific,_,model⟩ := (stores_analyze real.plain deposited).built.model
  rw [model]
  exact Model.solid_of_outline (Model.outline_refill _ _) (Analysis.solid_ofFiles _ _ _)

theorem sees_of_leads (here : start.here = world.here) (asked : request.path = .str source)
    (expanded : world.expandHome (Path.ofText source) = .ok folder)
    (leads : Leads folder world start) : start.Sees folder made.place := by
  have place := place_of_made real deposited asked expanded
  rcases leads with ⟨direct,rfl⟩ | ⟨other,seen⟩
  · have sees := (seen_of_made real deposited).1
    rw [place] at sees ⊢
    exact real.sees_direct direct sees
  · have same := Disk.place_of_locate seen.reached
    rw [here,← place] at same
    exact same ▸ seen

/-- Wherever the sources are as they were for an analysis, the same reports are made of them. -/
theorem files_again (keeps : world.Keeps Discovery.IsSource start)
    (named : request.specificClass = .ofOption specificClass)
    (alone : request.useAssistant.isGiven = false) (sees : start.Sees folder made.place) :
    let files := sourcesFor start folder specificClass
    let model := Analysis.ofFiles start.disk start.here files
    files ≠ [] ∧
      Report.files (model.withMethods (Summary.plain model.methods)) = Report.files made.model := by
  intro files model
  obtain ⟨first,specific,classed,nonempty⟩ := seen_of_made real deposited
  obtain ⟨_,known,built⟩ := (stores_analyze real.plain deposited).built.model
  rw [known] at classed
  cases classed
  rw [named] at known
  have twins := twins_sourcesFor real.whole keeps first sees specific
  have again : sourcesFor start folder specific = files := sourcesFor_named start folder known
  constructor
  · rw [sourcesFor_relative first] at nonempty
    rw [← again,sourcesFor_relative sees,relativeFor_of_keeps keeps]
    simpa using nonempty
  · rw [again] at twins
    rw [alone] at built
    have coherent := (Analysis.ofFiles_resolved world.disk world.here
      (sourcesFor world made.place.path specific)).1.summarize false none
    have same := (twins.withMethods (Summary.plain model.methods)).files
      (twins.methods ▸ coherent.coherent)
    rw [built,← same,← twins.methods]
    rfl

end Made

/-- Where an analysis succeeds that writes its reports below one directory, the command writes the
same reports below a fresh one, if its path leads to the folder as it is written and the level of the
settings is accepted. It may start where the analysis did or after it. -/
theorem same_reports {front back : List String} (real : world.Real)
    (asked : request.path = .str source) (named : request.specificClass = .ofOption specificClass)
    (reported : request.outputDir = .str output) (given : output ≠ "")
    (alone : request.useAssistant.isGiven = false)
    (analyzed : (analyze request).run.run world = (.ok answer,after))
    (success : answer.need "success" = .ok (.bool true))
    (begun : start = world ∨ start = after)
    (expanded : world.expandHome (Path.ofText source) = .ok folder)
    (leads : Leads folder world start) (fresh : Report.Fresh start (Path.ofText target))
    (fits : ∀ made, made? request world = some made → Report.Fits made.model (Path.ofText target))
    (leveled : CommandLine.checkLevel world.settings.logLevel = .ok ())
    (bareSource : CommandLine.Bare source) (bareTarget : CommandLine.Bare target)
    (bareClass : ∀ name ∈ specificClass, CommandLine.Bare name)
    (before : CommandLine.WorkersOption front) (behind : CommandLine.WorkersOption back) :
    ∃ written last, Reported request world output written after ∧
      (CommandLine.run (front ++ source ::
        (specificClass.toList ++ "--output-dir" :: target :: back))).run.run start =
          (.ok .success,last) ∧
      ∀ parts bytes, (parts,bytes) ∈ last.disk.filesBelow ((Path.ofText target).place start.here) ↔
        (Path.ofText output).join ⟨0,parts⟩ ∈ written ∧
          (parts,bytes) ∈ after.disk.filesBelow ((Path.ofText output).place world.here) := by
  obtain ⟨made,between,deposited,concluded⟩ := concluded_of_success real.plain analyzed success
  obtain ⟨written,wrote⟩ := reported_of_concluded reported given concluded
  have stays := keeps_sources real deposited
  rw [analyzed] at stays
  have keeps : world.Keeps Discovery.IsSource start := by
    rcases begun with rfl | rfl
    · exact refl_of (World.Keeps _) _
    · exact stays
  have sees := sees_of_leads real deposited keeps.here asked expanded leads
  obtain ⟨sources,files⟩ := files_again real deposited keeps named alone sees
  obtain ⟨copies,last,again,below⟩ :=
    Report.writeAll_fresh (solid_made real deposited) wrote fresh (fits made deposited)
  have here : between.here = world.here := by
    have within := Report.within_writeAll made.model (Path.ofText output) between
    rw [wrote] at within
    exact within.here.symm.trans stays.here
  rw [Report.writeAll_eq,← files,← Report.writeAll_eq] at again
  obtain ⟨workers,parsed⟩ :=
    CommandLine.parse_command start.settings bareSource bareTarget bareClass before behind
  refine ⟨written,last,⟨made,between,deposited,wrote⟩,?_,here ▸ below⟩
  rw [CommandLine.run,CommandLine.run_then (CommandLine.run_get start)]
  dsimp only
  rw [parsed]
  rw [← keeps.settings] at leveled
  exact CommandLine.run_analyze rfl leveled rfl rfl rfl ((keeps.expandHome _).trans expanded) sees
    sources rfl again

/-- A folder with one type. -/
def single : World := {disk.nodes := .ofList [(["src"],.directory),
  (["src","A.java"],.file (Text.Utf8.encode "package p; class A {}".toList))]}

theorem real_single : single.Real := by
  refine ⟨nofun,List.not_mem_nil,?_⟩
  intro place there
  have keys : single.disk.nodes.keys = [["src"],["src","A.java"]] := by decide +kernel
  rw [Disk.node?] at there
  split at there
  · next top =>
    rw [List.isEmpty_iff.mp top]
    rfl
  · rw [ne_eq,OrderedMap.get?_eq_none,Decidable.not_not,keys] at there
    simp only [List.mem_cons,List.not_mem_nil,or_false] at there
    rcases there with rfl | rfl
    · rfl
    · rfl

theorem fresh_single : Report.Fresh single (Path.ofText "out2") := by
  have keys : ((single.disk.makeDirectories single.here ((Path.ofText "out2").child
      "method-details")).2).nodes.keys =
        [["src"],["src","A.java"],["out2"],["out2","method-details"]] := by decide +kernel
  refine ⟨_,Prod.ext (show _ = Except.ok () by decide +kernel) rfl,?_⟩
  intro parts given there
  rw [Disk.node?_below given,ne_eq,OrderedMap.get?_eq_none,Decidable.not_not] at there
  have place : (Path.ofText "out2").place single.here = ["out2"] := by decide +kernel
  rw [keys,place] at there
  simpa [given] using there

/-- The sources are reported by both below directories of their own. -/
theorem same_reports_single :
    let request : AnalyzeRequest :=
      {path := .str "src",outputDir := .str "out",storagePath := some "store"}
    ∃ answer after written last, (analyze request).run.run single = (.ok answer,after) ∧
      Reported request single "out" written after ∧
      (CommandLine.run ["src","--output-dir","out2","--workers","4"]).run.run single =
        (.ok .success,last) ∧
      ∀ parts bytes, (parts,bytes) ∈ last.disk.filesBelow ((Path.ofText "out2").place []) ↔
        (Path.ofText "out").join ⟨0,parts⟩ ∈ written ∧
          (parts,bytes) ∈ after.disk.filesBelow ((Path.ofText "out").place []) := by
  intro request
  have succeeds : (((analyze request).run.run single).1.toOption.bind fun answer =>
      ((answer.need "success").bind Json.asFlag).toOption) = some true := by decide +kernel
  have short : ((made? request single).all fun made => (Report.files made.model).all fun report =>
      ((Path.ofText "out2").child report.1).text.utf8ByteSize ≤ Disk.pathLimit) = true := by
    decide +kernel
  have fits : ∀ made, made? request single = some made →
      Report.Fits made.model (Path.ofText "out2") := by
    intro made same
    rw [same,Option.all_some,List.all_eq_true] at short
    exact fun report member => of_decide_eq_true (short report member)
  have expanded : single.expandHome (Path.ofText "src") = .ok (Path.ofText "src") := by rfl
  obtain ⟨answer,after,analyzed,success⟩ := success_of_flag succeeds
  have workers : CommandLine.WorkersOption ["--workers","4"] :=
    .apart (show _ = some 4 by decide +kernel) (by decide +kernel)
  obtain ⟨written,last,reports,run,below⟩ := same_reports real_single rfl
    (show request.specificClass = .ofOption none from rfl) rfl (by decide) rfl analyzed success
    (.inl rfl) expanded (.inl ⟨⟨by decide,by decide⟩,rfl⟩) fresh_single fits
    (CommandLine.checkLevel_offered "INFO" (by decide)) (by decide) (by decide) nofun .absent workers
  exact ⟨answer,after,written,last,analyzed,reports,run,below⟩

/-- A step back from a directory that is missing leads nowhere on the disk. The analysis takes the
path by its text and succeeds, and the command ends in failure. -/
theorem missing_step :
    let request : AnalyzeRequest :=
      {path := .str "missing/../src",outputDir := .str "out",storagePath := some "store"}
    single.Real ∧ Report.Fresh single (Path.ofText "out2") ∧
      (∃ answer after, (analyze request).run.run single = (.ok answer,after) ∧
        answer.need "success" = .ok (.bool true)) ∧
      ((CommandLine.run ["missing/../src","--output-dir","out2"]).run.run single).1.toOption =
        some .failure := by
  intro request
  have succeeds : (((analyze request).run.run single).1.toOption.bind fun answer =>
      ((answer.need "success").bind Json.asFlag).toOption) = some true := by decide +kernel
  exact ⟨real_single,fresh_single,success_of_flag succeeds,by decide +kernel⟩

end Query

end JavaAtlas
