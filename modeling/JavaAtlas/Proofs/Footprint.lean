import JavaAtlas.Proofs.Sessions

/-! What is left of the world by calls that store nothing. An analysis that ends with a refusal has
touched nothing yet; a question opens the store, which may make its directory and those above it
that are missing, and reads from then on. -/
namespace JavaAtlas

/-- The place is the end of the path, or one that it passes on its way there. -/
def Path.Passes (here : Place) (path : Path) (place : Place) : Prop :=
  ∃ above, above <+: path.parts ∧ place = (Path.mk path.slashes above).place here

namespace Disk
variable {disk next middle : Disk} {here : Place} {allowed : Place → Prop}

/-- One disk after another on which nothing is new but directories at the allowed places. -/
def Extends (allowed : Place → Prop) (before after : Disk) : Prop :=
  ∃ directories : List Place,
    after.nodes.entries = before.nodes.entries ++ directories.map (fun place => (place,.directory)) ∧
      ∀ place ∈ directories, allowed place

theorem Extends.refl (allowed : Place → Prop) (disk : Disk) : Extends allowed disk disk :=
  ⟨[],(List.append_nil _).symm,nofun⟩

theorem Extends.trans (first : Extends allowed disk middle) (last : Extends allowed middle next) :
    Extends allowed disk next := by
  obtain ⟨earlier,entries,inside⟩ := first
  obtain ⟨later,further,also⟩ := last
  refine ⟨earlier ++ later,?_,List.forall_mem_append.mpr ⟨inside,also⟩⟩
  rw [further,entries,List.map_append,List.append_assoc]

theorem Extends.mono {wider : Place → Prop} (extends_ : Extends allowed disk next)
    (each : ∀ place, allowed place → wider place) : Extends wider disk next := by
  obtain ⟨directories,entries,inside⟩ := extends_
  exact ⟨directories,entries,fun place member => each place (inside place member)⟩

theorem extends_makeOne {path : Path} (made : disk.makeOne here path = .ok next) :
    Extends (· = path.place here) disk next := by
  obtain ⟨place,reached,empty,rfl⟩ := makeOne_iff.mp made
  have absent : place ∉ disk.nodes.keys := by
    rw [node?] at empty
    split at empty
    · cases empty
    · exact OrderedMap.get?_eq_none.mp empty
  refine ⟨[place],OrderedMap.entries_insert_of_not_mem absent _,?_⟩
  rw [List.forall_mem_singleton]
  exact place_of_locate reached

theorem extends_makeFrom (slashes : Nat) (reversed : List String) :
    Extends (Path.Passes here ⟨slashes,reversed.reverse⟩) disk
      (makeFrom here slashes reversed disk).2 := by
  have last {disk next : Disk} {parts : List String}
      (made : disk.makeOne here ⟨slashes,parts⟩ = .ok next) :
      Extends (Path.Passes here ⟨slashes,parts⟩) disk next :=
    (extends_makeOne made).mono fun place same => ⟨parts,List.prefix_rfl,same⟩
  induction reversed generalizing disk with
  | nil =>
    unfold makeFrom
    dsimp only
    split
    · next made => exact last made
    · exact .refl _ disk
    · exact .refl _ disk
  | cons part above ih =>
    unfold makeFrom
    dsimp only
    split
    · next made => exact last made
    · have first : Extends (Path.Passes here ⟨slashes,(part :: above).reverse⟩) disk
          (makeFrom here slashes above disk).2 := by
        apply ih.mono
        rintro place ⟨parts,inside,same⟩
        refine ⟨parts,inside.trans ?_,same⟩
        rw [List.reverse_cons]
        exact List.prefix_append _ _
      generalize makeFrom here slashes above disk = result at first
      obtain ⟨outcome,made⟩ := result
      cases outcome with
      | error fault => exact first
      | ok _ =>
        dsimp only
        split
        · next done => exact first.trans (last done)
        · exact first
    · exact .refl _ disk

/-- Of directories that are made, each is the one asked for or lies on the way to it. -/
theorem extends_makeDirectories (disk : Disk) (here : Place) (path : Path) :
    Extends (path.Passes here) disk (disk.makeDirectories here path).2 := by
  have along := @extends_makeFrom disk here path.slashes path.parts.reverse
  rwa [List.reverse_reverse] at along

end Disk

/-- One world after another in which nothing is new but directories on the way to the store. -/
structure World.Opens (before after : World) : Prop where
  rest : after = {before with disk := after.disk}
  disk : Disk.Extends
    (fun place => ∃ path, before.storePath = .ok path ∧ path.Passes before.here place)
    before.disk after.disk

namespace World.Opens
variable {world : World} {α β : Type}

theorem refl (world : World) : world.Opens world := ⟨rfl,.refl _ world.disk⟩

/-- What goes on where nothing has changed yet. -/
theorem after {first : Action α} {next : α → Action β} (same : first.Within Eq)
    (goes : ∀ value, world.Opens ((next value).run.run world).2) :
    world.Opens ((first >>= next).run.run world).2 :=
  @Action.run_after_same _ _ (fun outcome => world.Opens outcome.2) _ _ _ same
    (fun _ => .refl world) fun value _ => goes value

theorem openAt (world : World) :
    world.Opens ((Store.openAt world.settings.storagePath).run.run world).2 := by
  rw [Store.run_openAt,World.storeAt_settings]
  cases found : world.storePath with
  | error fault => exact .refl world
  | ok path =>
    dsimp only
    have made : Disk.Extends
        (fun place => ∃ path, world.storePath = .ok path ∧ path.Passes world.here place)
        world.disk (world.disk.makeDirectories world.here path).2 :=
      (Disk.extends_makeDirectories world.disk world.here path).mono
        fun place passes => ⟨path,found,passes⟩
    rw [Action.run_bind,Action.run_makeDirectories]
    generalize world.disk.makeDirectories world.here path = outcome at made
    obtain ⟨outcome,disk⟩ := outcome
    cases outcome with
    | error fault => exact ⟨rfl,made⟩
    | ok _ => exact ⟨rfl,made⟩

/-- Whatever is read once the store is open. -/
theorem reading {next : Store → Action α} (same : ∀ store, (next store).Within Eq) :
    world.Opens ((Store.openAt world.settings.storagePath >>= next).run.run world).2 := by
  have opens := openAt world
  rw [Action.run_bind]
  generalize (Store.openAt world.settings.storagePath).run.run world = outcome at opens
  obtain ⟨outcome,after⟩ := outcome
  cases outcome with
  | error fault => exact opens
  | ok store =>
    have kept := same store after
    dsimp only at opens ⊢
    rwa [← kept]

end World.Opens

namespace Query
variable {world after : World}

theorem opens_ask (repo : Json) (answer : String → Json → Except Json.Mismatch Json) :
    world.Opens ((ask world.settings.storagePath repo answer).run.run world).2 := by
  rw [ask_eq]
  exact .reading fun store => within_answerFrom store repo answer

theorem opens_listing :
    world.Opens ((listing world.settings.storagePath).run.run world).2 := by
  rw [listing]
  exact .reading fun store => (Store.within_list store).bind fun _ => Action.within_pure _

/-- An answer that takes the place of a deposit is given before anything is changed. -/
def Untouched (world : World) : Except Fault (Except Json Deposit) × World → Prop
  | (.ok (.error _),after) => after = world
  | _ => True

theorem untouched_depositModel (request : AnalyzeRequest) (place : Place) (fileCount : Nat)
    (model : Model) :
    Untouched world ((depositModel request place fileCount model).run.run world) := by
  rw [depositModel]
  split
  · exact rfl
  · rw [Action.run_bind]
    cases (summarize request.useAssistant.isGiven model).run.run world with
    | mk outcome between =>
      cases outcome with
      | error fault => trivial
      | ok summarized =>
        dsimp only
        rw [Action.run_bind]
        cases (keep request place fileCount summarized).run.run between with
        | mk outcome after => cases outcome <;> trivial

theorem untouched_depositFiles (request : AnalyzeRequest) (place : Place) (files : List Path) :
    Untouched world ((depositFiles request place files).run.run world) := by
  have rest := @untouched_depositModel world request place files.length
    (Analysis.ofFiles world.disk world.here files)
  rw [depositFiles]
  split
  · exact rfl
  · split
    · exact Action.run_after_same (Action.within_ofShape _) (fun _ => trivial) fun _ _ => rest
    · exact rest

theorem untouched_deposit (request : AnalyzeRequest) :
    Untouched world ((deposit request).run.run world) := by
  rw [deposit]
  refine Action.run_after_same (Action.within_ofShape _) (fun _ => trivial) fun folder _ => ?_
  refine Action.run_after_same (Action.within_resolve _) (fun _ => trivial) fun place _ => ?_
  refine Action.run_after_same (Action.within_find? _) (fun _ => trivial) fun node _ => ?_
  cases node with
  | none => exact rfl
  | some node =>
    cases node with
    | file bytes => exact rfl
    | directory =>
      refine Action.run_after_same (Action.within_ofShape _) (fun _ => trivial) fun name _ => ?_
      refine Action.run_after_same (within_findSources _ _) (fun _ => trivial) fun files _ => ?_
      exact untouched_depositFiles request place files

/-- An analysis that tells that it failed has changed nothing. -/
theorem same_of_failure {request : AnalyzeRequest} {answer : Json}
    (done : (analyze request).run.run world = (.ok answer,after))
    (failed : answer.need "success" = .ok (.bool false)) : after = world := by
  have untouched := @untouched_deposit world request
  rw [analyze] at done
  obtain ⟨outcome,between,first,done⟩ := Action.run_bind_ok done
  rw [first] at untouched
  cases outcome with
  | error refused =>
    cases done
    exact untouched
  | ok made =>
    obtain ⟨more,rfl⟩ := answer_of_conclude done
    cases failed

end Query

namespace Service
variable {world : World} {tool : Tool} {name : String}

theorem opens_run (other : tool ≠ .analyzeFolder) (arguments : Json) :
    world.Opens ((run tool world.settings.storagePath arguments).run.run world).2 := by
  have needed (name : String) : (required arguments name).Within Eq := Action.within_ofShape _
  have given (name : String) (default : Json) : (optional arguments name default).Within Eq :=
    Action.within_ofShape _
  cases tool with
  | analyzeFolder => exact absurd rfl other
  | listAnalyses => exact Query.opens_listing
  | classHierarchy =>
    exact .after (needed _) fun repo => .after (given _ _) fun package => Query.opens_ask _ _
  | classOutline =>
    exact .after (needed _) fun repo => .after (needed _) fun className => Query.opens_ask _ _
  | searchEndpoints =>
    exact .after (needed _) fun repo => .after (given _ _) fun query =>
      .after (given _ _) fun verb => .after (given _ _) fun limit => Query.opens_ask _ _
  | enums =>
    exact .after (needed _) fun repo => .after (given _ _) fun query => Query.opens_ask _ _
  | report =>
    refine .after (needed _) fun repo => .after (needed _) fun kind =>
      .after (given _ _) fun name => ?_
    rw [Query.report]
    split
    · exact .refl world
    · exact Query.opens_ask _ _

theorem name_of_ofName? (named : Tool.ofName? name = some tool) : tool.name = name := by
  rw [Tool.ofName?] at named
  have same := List.find?_some named
  exact beq_iff_eq.mp same

theorem opens_answer (other : name ≠ "analyze_folder") (arguments : Json) :
    world.Opens ((answer name arguments).run world).2 := by
  cases named : Tool.ofName? name with
  | none =>
    rw [run_answer_unknown named]
    exact .refl world
  | some tool =>
    rw [run_answer named]
    refine opens_run ?_ arguments
    rintro rfl
    exact other (name_of_ofName? named).symm

/-- A failed analysis changes nothing. No other call changes anything but the store's directory
and those on the way to it, which it may make. -/
theorem calls_leave_disk (world : World) :
    (∀ request answer after, (Query.analyze request).run.run world = (.ok answer,after) →
      answer.need "success" = .ok (.bool false) → after = world) ∧
    ∀ name arguments, name ≠ "analyze_folder" →
      let after := ((call name arguments).run world).2
      after = {world with disk := after.disk} ∧
        ∃ directories : List Place,
          after.disk.nodes.entries =
            world.disk.nodes.entries ++ directories.map (fun place => (place,.directory)) ∧
          ∀ place ∈ directories,
            ∃ path, world.storePath = .ok path ∧ path.Passes world.here place := by
  refine ⟨fun request answer after => Query.same_of_failure,?_⟩
  intro name arguments other
  have opens := @opens_answer world name other arguments
  exact ⟨opens.rest,opens.disk⟩

/-- A folder that is missing, and a question in a home without a store, which is made. -/
theorem calls_leave_disk_missing :
    let world : World := {disk.nodes := .ofList [(["home"],.directory)],home := "/home/me"}
    let asked := ((call "list_analyses" .null).run world).2
    (∃ answer after, (Query.analyze {path := .str "missing"}).run.run world = (.ok answer,after) ∧
      after = world) ∧
    asked = {world with disk := asked.disk} ∧
    asked.disk.nodes.entries = world.disk.nodes.entries ++
      [(["home","me"],.directory),(["home","me",".code-analysis"],.directory)] := by
  intro world asked
  have failed : (Query.analyze {path := .str "missing"}).run.run world =
      (.ok (Query.failure "Folder not found: missing" []),world) := rfl
  obtain ⟨analyses,questions⟩ := calls_leave_disk world
  refine ⟨⟨_,_,failed,analyses _ _ _ failed rfl⟩,?_⟩
  obtain ⟨rest,_⟩ := questions "list_analyses" .null (by decide)
  refine ⟨rest,?_⟩
  decide +kernel

end Service

end JavaAtlas
