import JavaAtlas.Proofs.Effects
import JavaAtlas.Proofs.Order
import JavaAtlas.Proofs.Paths
import JavaAtlas.Proofs.Storage
import JavaAtlas.Proofs.Words
import JavaAtlas.Query.Analyze

/-! Names in the list. A store that holds nothing but deposits lists them under their names, of
which no two end alike, so that a bare name stands for the whole one. -/
namespace JavaAtlas

namespace Query.Deposit

/-- The name of the file in which an analysis is stored. -/
def fileName (name : String) : String := "local" ++ "-" ++ name ++ ".json"

/-- What every deposit is like: one name, and the document of the model under it. -/
structure Sound (deposit : Deposit) : Prop where
  solid : '/' ∉ deposit.name.toList
  described : ∃ clock, deposit.analysis = Store.describe "local" deposit.name clock
    deposit.place.path.text (deposit.model.units.values.map CompilationUnit.file) deposit.model

/-- The text of the deposit is read as the document that it tells. -/
def Faithful (deposit : Deposit) : Prop :=
  Json.read deposit.analysis.toJson.print = .ok deposit.analysis.toJson

def bytes (deposit : Deposit) : List UInt8 := Text.Utf8.encode deposit.analysis.toJson.print

end Query.Deposit

theorem Query.Deposit.faithful {deposit : Query.Deposit} (sound : deposit.Sound)
    (small : deposit.model.stats.Small) : deposit.Faithful := by
  obtain ⟨clock,described⟩ := sound.described
  rw [Faithful,described]
  exact Store.read_describe _ _ _ _ _ small

namespace Store
open Query (Deposit)
variable {directory : Path} {world : World} {deposit : Deposit} {deposits : List Deposit}
  {name other file : String} {listed : Json} {entries : List Json}

theorem fileName_injective (same : Deposit.fileName name = Deposit.fileName other) :
    name = other := by
  have texts := congrArg String.toList same
  simp only [Deposit.fileName,String.toList_append] at texts
  exact String.toList_injective (List.append_cancel_left (List.append_cancel_right texts))

theorem fileOf_join {owner : String} (whole : '/' ∉ owner.toList) (solid : '/' ∉ name.toList) :
    (Store.mk directory).fileOf owner name =
      directory.join ⟨0,[owner ++ "-" ++ name ++ ".json"]⟩ := by
  have single : '/' ∉ (owner ++ "-" ++ name ++ ".json").toList := by
    simp [whole,solid]
  have part : Path.isPart (owner ++ "-" ++ name ++ ".json") = true := by
    apply Path.isPart_of_length
    simp
    omega
  change directory.join (Path.ofText (owner ++ "-" ++ name ++ ".json")) = _
  rw [Path.ofText_name single part]

theorem fileOf_eq (solid : '/' ∉ name.toList) :
    (Store.mk directory).fileOf "local" name = directory.join ⟨0,[Deposit.fileName name]⟩ :=
  fileOf_join (by decide) solid

theorem place_join_name (named : file ≠ "..") (here : Place) :
    (directory.join ⟨0,[file]⟩).place here = directory.place here ++ [file] := by
  rw [Path.place_join,List.foldl_cons,List.foldl_nil,Place.step_of_ne named]

theorem ne_parent_of_suffix (document : ".json".toList.isSuffixOf file.toList = true) :
    file ≠ ".." := by
  rintro rfl
  exact absurd document (by decide)

theorem suffix_fileName (name : String) :
    ".json".toList.isSuffixOf (Deposit.fileName name).toList = true := by
  rw [List.isSuffixOf_iff_suffix,Deposit.fileName,String.toList_append]
  exact List.suffix_append _ _

/-- The store is open, and the deposit lies in it in the file of its name. -/
structure Has (directory : Path) (deposit : Deposit) (world : World) : Prop where
  opened : world.disk.HasDirectory world.here directory
  written : world.disk.read world.here (directory.join ⟨0,[Deposit.fileName deposit.name]⟩) =
    .ok deposit.bytes

/-- What keeps the file of a deposit keeps the deposit. -/
theorem Has.of_keeps {after : World} {kept : Place → Prop} (has : Has directory deposit world)
    (keeps : world.Keeps kept after)
    (inside : kept (directory.place world.here ++ [Deposit.fileName deposit.name])) :
    Has directory deposit after := by
  have named := ne_parent_of_suffix (suffix_fileName deposit.name)
  constructor
  · rw [keeps.here]
    exact keeps.disk.hasDirectory has.opened
  · rw [keeps.here]
    refine keeps.disk.read ?_ has.written
    rwa [place_join_name named]

/-- Documents lie in the store for these deposits alone. -/
def HoldsOnly (directory : Path) (deposits : List Deposit) (world : World) : Prop :=
  ∀ file bytes, ".json".toList.isSuffixOf file.toList = true →
    world.disk.node? (directory.place world.here ++ [file]) = some (.file bytes) →
    ∃ deposit ∈ deposits, file = Deposit.fileName deposit.name ∧ bytes = deposit.bytes

/-- A store goes on to hold only deposits if all documents are kept but those of new ones. -/
theorem HoldsOnly.append {after : World} {kept : Place → Prop} {more : List Deposit}
    (only : HoldsOnly directory deposits world) (keeps : world.Keeps kept after)
    (new : ∀ file bytes, ".json".toList.isSuffixOf file.toList = true →
      after.disk.node? (directory.place world.here ++ [file]) = some (.file bytes) →
      kept (directory.place world.here ++ [file]) ∨
        ∃ deposit ∈ more, file = Deposit.fileName deposit.name ∧ bytes = deposit.bytes) :
    HoldsOnly directory (deposits ++ more) after := by
  intro file bytes document node
  rw [keeps.here] at node
  rcases new file bytes document node with inside | ⟨deposit,member,named⟩
  · rcases keeps.disk.nodes _ inside with same | ⟨_,made⟩
    · obtain ⟨deposit,member,named⟩ := only file bytes document (same ▸ node)
      exact ⟨deposit,List.mem_append_left _ member,named⟩
    · rw [node] at made
      cases made
  · exact ⟨deposit,List.mem_append_right _ member,named⟩

theorem Has.node (has : Has directory deposit world) :
    world.disk.node? (directory.place world.here ++ [Deposit.fileName deposit.name]) =
      some (.file deposit.bytes) := by
  obtain ⟨place,reached,node⟩ := Disk.read_iff.mp has.written
  rwa [Disk.place_of_locate reached,
    place_join_name (ne_parent_of_suffix (suffix_fileName deposit.name))] at node

/-- The entry is that of the folder with this name. -/
def Lists (listed : Json) (name : String) : Prop :=
  listed.need "repo" = .ok (.str ("local/" ++ name))

theorem entry_describe (name clock sourceRoot : String) (sourceFiles : List String)
    (model : Model) :
    ∃ value, entry (describe "local" name clock sourceRoot sourceFiles model).toJson = .ok value ∧
      Lists value name :=
  ⟨_,rfl,rfl⟩

theorem run_entryOf?_fault {path : Path} {fault : Disk.Fault}
    (missing : world.disk.read world.here path = .error fault) :
    (entryOf? path).run.run world = (.ok none,world) := by
  have value : (Action.readDocument path).run.run world = (.error (.disk fault),world) := by
    rw [Action.readDocument,Action.run_bind,Action.run_get]
    dsimp only
    rw [missing]
    rfl
  rw [entryOf?,Action.run_tryCatch,Action.run_bind,value]
  rfl

theorem run_entryOf? {path : Path} (sound : deposit.Sound) (faithful : deposit.Faithful)
    (written : world.disk.read world.here path = .ok deposit.bytes) :
    ∃ value, (entryOf? path).run.run world = (.ok (some value),world) ∧
      Lists value deposit.name := by
  have plain := Json.isPlain_print deposit.analysis.toJson
  have document : Json.read (Text.Utf8.unifyLineBreaks deposit.analysis.toJson.print) =
      .ok deposit.analysis.toJson := by
    rw [Text.Utf8.unifyLineBreaks_plain plain]
    exact faithful
  have value := Action.run_readDocument written (Text.Utf8.decode_encode_plain plain) document
  obtain ⟨clock,described⟩ := sound.described
  obtain ⟨listed,made,lists⟩ := entry_describe deposit.name clock deposit.place.path.text
    (deposit.model.units.values.map CompilationUnit.file) deposit.model
  refine ⟨listed,?_,lists⟩
  rw [entryOf?,Action.run_tryCatch,Action.run_bind,value]
  dsimp only
  rw [described,made]
  rfl

theorem mem_names {disk : Disk} {place : Place} :
    file ∈ disk.names place ↔ ∃ node, disk.node? (place ++ [file]) = some node := by
  have inner : disk.node? (place ++ [file]) = disk.nodes.get? (place ++ [file]) := by
    rw [Disk.node?,if_neg (by simp)]
  rw [inner,Disk.names,List.mem_filterMap]
  constructor
  · rintro ⟨entry,member,found⟩
    split at found
    · next child =>
      rw [Bool.and_eq_true,beq_iff_eq] at child
      have whole : place ++ [file] = entry.1 := by
        rw [← child.1]
        exact List.dropLast_append_getLast? file found
      exact ⟨entry.2,OrderedMap.get?_eq_some.mpr (whole ▸ member)⟩
    · cases found
  · rintro ⟨node,found⟩
    exact ⟨_,OrderedMap.get?_eq_some.mp found,by simp⟩

/-- The documents in the directory, in the order of the list. -/
def documents (directory : Path) (world : World) : List String :=
  Text.sorted ((world.disk.names (directory.place world.here)).filter fun name =>
    ".json".toList.isSuffixOf name.toList)

theorem mem_documents : file ∈ documents directory world ↔
    (∃ node, world.disk.node? (directory.place world.here ++ [file]) = some node) ∧
      ".json".toList.isSuffixOf file.toList = true := by
  rw [documents,Text.mem_sorted,List.mem_filter,mem_names]

/-- What the list shows of one file. -/
def shown? (directory : Path) (world : World) (file : String) : Option Json :=
  match ((entryOf? (directory.join ⟨0,[file]⟩)).run.run world).1 with
  | .ok shown => shown
  | .error _ => none

section Listed
variable (opened : world.disk.HasDirectory world.here directory)
  (only : HoldsOnly directory deposits world)
  (each : ∀ deposit ∈ deposits, deposit.Sound ∧ deposit.Faithful)
include only each

/-- A document is read or passed over, and an entry has the name of the deposit of the file. -/
theorem run_document (document : ".json".toList.isSuffixOf file.toList = true) :
    (entryOf? (directory.join ⟨0,[file]⟩)).run.run world =
        (.ok (shown? directory world file),world) ∧
      ∀ listed ∈ shown? directory world file, ∃ deposit ∈ deposits,
        file = Deposit.fileName deposit.name ∧ Lists listed deposit.name := by
  rw [shown?]
  cases found : world.disk.read world.here (directory.join ⟨0,[file]⟩) with
  | error fault =>
    rw [run_entryOf?_fault found]
    exact ⟨rfl,nofun⟩
  | ok bytes =>
    obtain ⟨place,reached,node⟩ := Disk.read_iff.mp found
    rw [Disk.place_of_locate reached,place_join_name (ne_parent_of_suffix document)] at node
    obtain ⟨deposit,member,named,rfl⟩ := only file bytes document node
    obtain ⟨sound,faithful⟩ := each deposit member
    obtain ⟨value,run,lists⟩ := run_entryOf? sound faithful found
    rw [run]
    refine ⟨rfl,?_⟩
    rintro _ ⟨⟩
    exact ⟨deposit,member,named,lists⟩

include opened

theorem run_list : (list ⟨directory⟩).run.run world =
    (.ok ((documents directory world).filterMap (shown? directory world)),world) := by
  have all := Action.run_filterMapM fun file (member : file ∈ documents directory world) =>
    (run_document only each (mem_documents.mp member).2).1
  obtain ⟨place,reached,_⟩ := opened
  rw [list,Action.run_bind,Action.run_get]
  dsimp only
  rw [reached,Disk.place_of_locate reached]
  exact all

end Listed

theorem listed_of_has (sound : deposit.Sound) (faithful : deposit.Faithful)
    (has : Has directory deposit world) :
    ∃ listed ∈ (documents directory world).filterMap (shown? directory world),
      Lists listed deposit.name := by
  have document := mem_documents.mpr ⟨⟨_,has.node⟩,suffix_fileName deposit.name⟩
  obtain ⟨value,run,lists⟩ := run_entryOf? sound faithful has.written
  refine ⟨value,List.mem_filterMap.mpr ⟨_,document,?_⟩,lists⟩
  rw [shown?,run]

theorem toList_local (name : String) :
    ("local/" ++ name).toList = "local".toList ++ '/' :: name.toList := by
  have front : "local/".toList = "local".toList ++ ['/'] := by decide
  rw [String.toList_append,front,List.append_assoc,List.singleton_append]

theorem divide_local (name : String) : divide ("local/" ++ name) = ("local",name) := by
  have owner : ∀ c ∈ "local".toList, (c != '/') = true := by decide
  rw [divide,toList_local,Text.takeWhile_stop owner rfl,Text.dropWhile_stop owner rfl,
    List.drop_one,List.tail_cons,String.ofList_toList,String.ofList_toList]

theorem suffix_local (solid : '/' ∉ name.toList) (whole : '/' ∉ other.toList) :
    ('/' :: name.toList).isSuffixOf ("local/" ++ other).toList = true ↔ name = other := by
  rw [List.isSuffixOf_iff_suffix,toList_local]
  constructor
  · rintro ⟨front,same⟩
    have owners := congrArg (Text.beforeLast '/') same
    rw [Text.beforeLast_append solid,Text.beforeLast_append whole] at owners
    rw [owners] at same
    exact String.toList_injective (List.cons.inj (List.append_cancel_left same)).2
  · rintro rfl
    exact List.suffix_append _ _

theorem lists_once (first : Lists listed name) (second : Lists listed other) : name = other := by
  have texts := congrArg String.toList (Json.str.inj (Except.ok.inj (first.symm.trans second)))
  rw [toList_local,toList_local] at texts
  exact String.toList_injective (List.cons.inj (List.append_cancel_left texts)).2

/-- Of folders without slashes in their names, the one that is asked for is found by its name. -/
theorem findName_eq (solid : '/' ∉ name.toList)
    (folders : ∀ listed ∈ entries, ∃ folder, '/' ∉ folder.toList ∧ Lists listed folder)
    (there : ∃ listed ∈ entries, Lists listed name) :
    findName name entries = .ok (some ("local",name)) := by
  induction entries with
  | nil =>
    obtain ⟨_,member,_⟩ := there
    cases member
  | cons first entries ih =>
    rw [List.forall_mem_cons] at folders
    obtain ⟨⟨folder,whole,lists⟩,folders⟩ := folders
    rw [findName,lists]
    dsimp only
    -- An earlier entry answers only to a folder of just this name, whose entry is the same pair.
    by_cases same : name = folder
    · rw [if_pos ((suffix_local solid whole).mpr same),← same,divide_local]
    · rw [if_neg (mt (suffix_local solid whole).mp same)]
      apply ih folders
      obtain ⟨listed,member,found⟩ := there
      rcases List.mem_cons.mp member with rfl | inside
      · exact absurd (lists_once found lists) same
      · exact ⟨listed,inside,found⟩

theorem run_holds (text : String) :
    (Action.ofShape ((Json.str text).holds '/')).run.run world =
      (.ok (text.toList.contains '/'),world) := rfl

theorem run_resolve_whole (name : String) :
    ((Store.mk directory).resolve (.str ("local/" ++ name))).run.run world =
      (.ok (some ("local",name)),world) := by
  have slash : ("local/" ++ name).toList.contains '/' = true := by simp
  rw [resolve,Action.run_bind,run_holds]
  dsimp only
  rw [if_pos slash,← divide_local]
  rfl

theorem run_resolve_search {name : String} (bare : '/' ∉ name.toList) (world : World) :
    ((Store.mk directory).resolve (.str name)).run.run world =
      (do Action.ofShape (findName name (← list ⟨directory⟩)) : Action _).run.run world := by
  have solid : ¬ name.toList.contains '/' = true := by simpa using bare
  rw [resolve,Action.run_bind,run_holds]
  dsimp only
  rw [if_neg solid]
  rfl

/-- A bare name means the same as the whole one. -/
theorem run_resolve_bare (opened : world.disk.HasDirectory world.here directory)
    (only : HoldsOnly directory deposits world)
    (each : ∀ deposit ∈ deposits, deposit.Sound ∧ deposit.Faithful)
    (member : deposit ∈ deposits) (has : Has directory deposit world) :
    ((Store.mk directory).resolve (.str deposit.name)).run.run world =
      (.ok (some ("local",deposit.name)),world) := by
  obtain ⟨sound,faithful⟩ := each deposit member
  have found : findName deposit.name ((documents directory world).filterMap
      (shown? directory world)) = .ok (some ("local",deposit.name)) := by
    apply findName_eq sound.solid _ (listed_of_has sound faithful has)
    intro listed inside
    obtain ⟨file,document,shown⟩ := List.mem_filterMap.mp inside
    obtain ⟨folder,known,_,lists⟩ :=
      (run_document only each (mem_documents.mp document).2).2 listed shown
    exact ⟨folder.name,(each folder known).1.solid,lists⟩
  rw [run_resolve_search sound.solid,Action.run_bind,run_list opened only each]
  change (Action.ofShape (findName deposit.name _)).run.run world = _
  rw [found]
  rfl

theorem load_of_has (sound : deposit.Sound) (faithful : deposit.Faithful)
    (has : Has directory deposit world) :
    ((Store.mk directory).load "local" deposit.name).run.run world =
      (.ok (some deposit.analysis),world) := by
  apply run_load _ faithful
  rw [fileOf_eq sound.solid]
  exact has.written

end Store

end JavaAtlas
