import JavaAtlas.Proofs.Deposits
import JavaAtlas.Proofs.Document
import JavaAtlas.Service.Call

/-! Sessions: calls of the tools one after another, on a store that nothing else writes to. What an
analysis put there stays until a folder of the same name is analysed, and questions are answered
from it. -/
namespace JavaAtlas.Service
open Query (Deposit)
open Json (ok_of_bind)
variable {start world before between after final : World} {directory : Path}
  {deposits earlier later : List Deposit} {deposit : Deposit} {arguments : Json} {name : String}

/-- The deposit that a call makes, if it makes one. -/
def deposit? (name : String) (arguments : Json) (world : World) : Option Deposit :=
  match Tool.ofName? name, analysisRequest world.settings.storagePath arguments with
  | some .analyzeFolder, .ok request => Query.made? request world
  | _, _ => none

/-- The answer that comes of a call. -/
def reply : Except Fault Json → Json
  | .ok value => value
  | .error fault => Query.refusal fault.message

theorem run_answer {tool : Tool} (named : Tool.ofName? name = some tool) (world : World) :
    (answer name arguments).run world =
      let outcome := (run tool world.settings.storagePath arguments).run.run world
      (reply outcome.1,outcome.2) := by
  rw [answer,named]
  dsimp only
  rw [StateT.run_bind,StateT.run_get,pure_bind,StateT.run_bind]
  change (do
    let outcome ← (run tool world.settings.storagePath arguments).run.run world
    _ : Id _) = _
  generalize (run tool world.settings.storagePath arguments).run.run world = outcome
  obtain ⟨outcome,after⟩ := outcome
  cases outcome <;> rfl

theorem run_answer_unknown (unknown : Tool.ofName? name = none) (world : World) :
    (answer name arguments).run world = (Query.refusal ("Unknown tool: " ++ name),world) := by
  rw [answer,unknown]
  rfl

theorem storagePath_analysisRequest {path : Option String} {request : Query.AnalyzeRequest}
    (asked : analysisRequest path arguments = .ok request) : request.storagePath = path := by
  obtain ⟨_,_,asked⟩ := ok_of_bind asked
  obtain ⟨_,_,asked⟩ := ok_of_bind asked
  obtain ⟨_,_,asked⟩ := ok_of_bind asked
  obtain ⟨_,_,asked⟩ := ok_of_bind asked
  cases asked
  rfl

/-- No tool but the analysis changes a file. -/
theorem within_run {kept : Place → Prop} {tool : Tool} (other : tool ≠ .analyzeFolder)
    (path : Option String) (arguments : Json) :
    (run tool path arguments).Within (World.Keeps kept) := by
  have needed (name : String) : (required arguments name).Within (World.Keeps kept) :=
    Action.within_ofShape _
  have given (name : String) (default : Json) :
      (optional arguments name default).Within (World.Keeps kept) :=
    Action.within_ofShape _
  cases tool with
  | analyzeFolder => exact absurd rfl other
  | listAnalyses => exact Query.within_listing path
  | classHierarchy =>
    exact (needed _).bind fun repo => (given _ _).bind fun package => Query.within_ask _ _ _
  | classOutline =>
    exact (needed _).bind fun repo => (needed _).bind fun className => Query.within_ask _ _ _
  | searchEndpoints =>
    exact (needed _).bind fun repo => (given _ _).bind fun query => (given _ _).bind fun verb =>
      (given _ _).bind fun limit => Query.within_ask _ _ _
  | enums =>
    exact (needed _).bind fun repo => (given _ _).bind fun query => Query.within_ask _ _ _
  | report =>
    refine (needed _).bind fun repo => (needed _).bind fun kind => (given _ _).bind fun name => ?_
    rw [Query.report]
    split
    · exact Action.within_pure _
    · exact Query.within_ask _ _ _

theorem run_analysis {request : Query.AnalyzeRequest}
    (asked : analysisRequest world.settings.storagePath arguments = .ok request) :
    (run .analyzeFolder world.settings.storagePath arguments).run.run world =
      (Query.analyze request).run.run world := by
  rw [run,Action.run_bind,asked]
  rfl

theorem run_analysis_refused {mismatch : Json.Mismatch}
    (asked : analysisRequest world.settings.storagePath arguments = .error mismatch) :
    (run .analyzeFolder world.settings.storagePath arguments).run.run world =
      (.error (.shape mismatch),world) := by
  rw [run,Action.run_bind,asked]
  rfl

theorem analyze_of_ofName? {tool : Tool} (named : Tool.ofName? name = some tool)
    (made : deposit? name arguments world = some deposit) :
    ∃ request, analysisRequest world.settings.storagePath arguments = .ok request ∧
      Query.made? request world = some deposit ∧
      (run tool world.settings.storagePath arguments).run.run world =
        (Query.analyze request).run.run world := by
  rw [deposit?,named] at made
  split at made
  · next request same asked =>
    cases same
    exact ⟨request,asked,made,run_analysis asked⟩
  · cases made

/-- A call that makes no deposit changes nothing but reports. -/
theorem call_keeps (plain : world.Plain) (unstored : deposit? name arguments world = none) :
    world.Keeps (fun place => ¬ Report.IsReport place) ((answer name arguments).run world).2 := by
  cases named : Tool.ofName? name with
  | none =>
    rw [run_answer_unknown named]
    exact refl_of (World.Keeps _) world
  | some tool =>
    rw [run_answer named]
    by_cases analysis : tool = .analyzeFolder
    · subst analysis
      dsimp only
      cases asked : analysisRequest world.settings.storagePath arguments with
      | error mismatch =>
        rw [run_analysis_refused asked]
        exact refl_of (World.Keeps _) world
      | ok request =>
        rw [run_analysis asked]
        rw [deposit?,named,asked] at unstored
        exact Query.keeps_analyze plain unstored
    · exact within_run analysis _ arguments world

/-- A call that makes a deposit puts it into the store and changes nothing else but reports. -/
theorem call_stores (plain : world.Plain) (made : deposit? name arguments world = some deposit) :
    Query.Stores world.storePath (fun place => ¬ Report.IsReport place) world deposit
      ((answer name arguments).run world).2 := by
  cases named : Tool.ofName? name with
  | none =>
    rw [deposit?,named] at made
    cases made
  | some tool =>
    obtain ⟨request,asked,made,run⟩ := analyze_of_ofName? named made
    have path := storagePath_analysisRequest asked
    rw [run_answer named,run,← Query.AnalyzeRequest.storeAt_chosen path]
    exact (Query.stores_analyze plain made).stores

/-- What others do beside a session. They may change all that does not lie in the store. -/
structure Aside (before after : World) : Prop extends before.SameSite after where
  opened : ∀ directory, before.storePath = .ok directory →
    before.disk.HasDirectory before.here directory → after.disk.HasDirectory before.here directory
  files : ∀ directory, before.storePath = .ok directory → ∀ name,
    after.disk.node? (directory.place before.here ++ [name]) =
      before.disk.node? (directory.place before.here ++ [name])

/-- Calls one after another, with what others do beside them, and the deposits that they made. -/
inductive Session (start : World) : List Deposit → World → Prop
  | start : Session start [] start
  | call {deposits : List Deposit} {world : World} (session : Session start deposits world)
      (name : String) (arguments : Json) :
      Session start (deposits ++ (deposit? name arguments world).toList)
        ((answer name arguments).run world).2
  | aside {deposits : List Deposit} {world after : World} (session : Session start deposits world)
      (step : Aside world after) : Session start deposits after

theorem Session.append (first : Session start earlier before)
    (last : Session before later after) : Session start (earlier ++ later) after := by
  induction last with
  | start => rwa [List.append_nil]
  | call _ name arguments ih =>
    rw [← List.append_assoc]
    exact ih.call name arguments
  | aside _ step ih => exact ih.aside step

/-- A world in which nothing is stored yet. -/
structure Fresh (world : World) : Prop where
  plain : world.Plain
  empty : ∀ directory, world.storePath = .ok directory → ∀ name,
    world.disk.node? (directory.place world.here ++ [name]) = none

/-- What holds throughout a session: it stays where it is, and the store has nothing but its
deposits. -/
structure Orderly (start : World) (deposits : List Deposit) (world : World) : Prop where
  site : start.SameSite world
  sound : ∀ deposit ∈ deposits, deposit.Sound
  only : ∀ directory, start.storePath = .ok directory → Store.HoldsOnly directory deposits world

/-- What one call adds to the deposits of a session it adds to the store, and nothing else. -/
theorem Orderly.call (orderly : Orderly start deposits world) (plain : start.Plain)
    (name : String) (arguments : Json) :
    Orderly start (deposits ++ (deposit? name arguments world).toList)
      ((answer name arguments).run world).2 := by
  have there := orderly.site.plain plain
  cases made : deposit? name arguments world with
  | none =>
    have keeps := call_keeps there made
    refine ⟨orderly.site.trans keeps.toSameSite,by simpa using orderly.sound,?_⟩
    intro directory path
    apply (orderly.only directory path).append keeps
    exact fun file _ document _ => .inl (Query.not_isReport document)
  | some deposit =>
    have stores := call_stores there made
    obtain ⟨_,_,_,keeps⟩ := stores.filed
    refine ⟨orderly.site.trans keeps.toSameSite,?_,?_⟩
    · intro other member
      rcases List.mem_append.mp member with known | new
      · exact orderly.sound other known
      · rw [List.mem_singleton.mp new]
        exact stores.sound
    · intro directory path
      exact stores.holdsOnly (orderly.site.storePath.trans path) (orderly.only directory path)

theorem Orderly.aside (orderly : Orderly start deposits world) (step : Aside world after) :
    Orderly start deposits after := by
  refine ⟨orderly.site.trans step.toSameSite,orderly.sound,?_⟩
  intro directory path file bytes document node
  rw [step.here,step.files directory (orderly.site.storePath.trans path)] at node
  exact orderly.only directory path file bytes document node

theorem Session.orderly (session : Session start deposits world) (fresh : Fresh start) :
    Orderly start deposits world := by
  induction session with
  | start =>
    refine ⟨⟨rfl,rfl,rfl⟩,nofun,?_⟩
    intro directory path file bytes _ node
    rw [fresh.empty directory path] at node
    cases node
  | call _ name arguments ih => exact ih.call fresh.plain name arguments
  | aside _ step ih => exact ih.aside step

theorem Aside.has (step : Aside world after) (path : world.storePath = .ok directory)
    (has : Store.Has directory deposit world) : Store.Has directory deposit after := by
  have opened := step.opened directory path has.opened
  obtain ⟨place,reached,node⟩ := Disk.read_iff.mp has.written
  have same := Disk.place_of_locate reached
  rw [Store.place_join_name (Store.ne_parent_of_suffix (Store.suffix_fileName _))] at same
  constructor
  · rwa [step.here]
  · rw [step.here]
    refine Disk.read_iff.mpr ⟨place,Disk.locate_below opened reached,?_⟩
    rw [same,step.files directory path,← same,node]

/-- A deposit stays in the store until a folder of the same name is analysed. -/
theorem Session.keeps (session : Session start deposits world) (plain : start.Plain)
    (path : start.storePath = .ok directory) (has : Store.Has directory deposit start)
    (others : ∀ other ∈ deposits, other.name ≠ deposit.name) :
    start.SameSite world ∧ Store.Has directory deposit world := by
  induction session with
  | start => exact ⟨⟨rfl,rfl,rfl⟩,has⟩
  | @call deposits world session name arguments ih =>
    rw [List.forall_mem_append] at others
    obtain ⟨site,still⟩ := ih others.1
    have there := site.plain plain
    have document := Store.suffix_fileName deposit.name
    cases made : deposit? name arguments world with
    | none =>
      have keeps := call_keeps there made
      exact ⟨site.trans keeps.toSameSite,still.of_keeps keeps (Query.not_isReport document)⟩
    | some other =>
      obtain ⟨_,chosen,found,_,keeps⟩ := call_stores there made
      rw [site.storePath,path] at found
      cases found
      refine ⟨site.trans keeps.toSameSite,
        still.of_keeps keeps ⟨Query.not_isReport document,?_⟩⟩
      -- Only a folder of the same name has its document in the same place.
      intro place
      have names := Store.fileName_injective (by simpa using place)
      rw [made] at others
      exact others.2 other (List.mem_singleton_self _) names.symm
  | aside _ step ih =>
    obtain ⟨site,still⟩ := ih others
    exact ⟨site.trans step.toSameSite,step.has (site.storePath.trans path) still⟩

end JavaAtlas.Service
