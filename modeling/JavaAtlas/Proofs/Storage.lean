import JavaAtlas.Proofs.Actions
import JavaAtlas.Proofs.Growth
import JavaAtlas.Proofs.Reading
import JavaAtlas.Proofs.Reachable
import JavaAtlas.Store.Basic

/-! What is saved can be loaded. The path of a file still leads to it once it is written, its text
is plain, and its parts are found again by their names. -/
namespace JavaAtlas

namespace Disk
variable {disk next : Disk} {here : Place} {path : Path} {bytes : List UInt8}

theorem found_of_write (written : disk.write here path bytes = .ok next) :
    ∃ place, next.locate here path = .ok place ∧ next.node? place = some (.file bytes) := by
  obtain ⟨place,reached,outside,rfl⟩ := write_iff.mp written
  have keeps : disk.Keeps (fun _ => False) (disk.withFile place bytes) :=
    keeps_withFile outside id
  have inside : place ≠ [] := by
    rintro rfl
    exact outside rfl
  exact ⟨place,keeps.locate reached,node?_withFile inside⟩

theorem read_of_write (written : disk.write here path bytes = .ok next) :
    next.read here path = .ok bytes :=
  read_iff.mpr (found_of_write written)

end Disk

section Readable
open Json (Readable)
variable {depth : Nat}

theorem Json.readable_strings (texts : List String) : Readable (depth + 1) (strings texts) := by
  apply Readable.arr
  intro item member
  obtain ⟨text,_,rfl⟩ := List.mem_map.mp member
  exact .str text

theorem Json.readable_ofOption (text : Option String) : Readable depth (ofOption text) := by
  cases text with
  | none => exact .null
  | some text => exact .str text

theorem Json.readable_stringLists (map : OrderedMap String (List String)) :
    Readable (depth + 2) (stringLists map) := by
  apply Readable.obj
  · rw [List.map_map]
    exact map.distinct
  · intro field member
    obtain ⟨entry,_,rfl⟩ := List.mem_map.mp member
    exact readable_strings entry.2

theorem Json.readable_arr_map {α : Type} {encode : α → Json}
    (each : ∀ item, Readable depth (encode item)) (items : List α) :
    Readable (depth + 1) (.arr (items.map encode)) := by
  apply Readable.arr
  intro value member
  obtain ⟨item,_,rfl⟩ := List.mem_map.mp member
  exact each item

theorem AnnotationUse.readable (mark : AnnotationUse) : Readable (depth + 1) mark.toJson := by
  apply Readable.obj (by simp)
  simp only [List.forall_mem_cons]
  exact ⟨.str _,Json.readable_ofOption _,nofun⟩

theorem Method.readable (method : Method) : Readable (depth + 3) method.toJson := by
  apply Readable.obj (by simp)
  simp only [List.forall_mem_cons]
  exact ⟨.str _,.str _,.str _,Json.readable_arr_map AnnotationUse.readable _,.str _,nofun⟩

theorem CompilationUnit.readable (unit : CompilationUnit) : Readable (depth + 5) unit.toJson := by
  apply Readable.obj (by simp)
  simp only [List.forall_mem_cons]
  exact ⟨.str _,.str _,.str _,Json.readable_ofOption _,Json.readable_strings _,
    Json.readable_arr_map Method.readable _,.bool _,.bool _,.bool _,Json.readable_strings _,nofun⟩

theorem Endpoint.readable (endpoint : Endpoint) : Readable (depth + 1) endpoint.toJson := by
  apply Readable.obj (by simp)
  simp only [List.forall_mem_cons]
  exact ⟨.str _,.str _,.str _,.str _,.str _,Json.readable_ofOption _,Json.readable_ofOption _,nofun⟩

theorem Model.readable (model : Model) : Readable (depth + 7) model.toJson := by
  apply Readable.obj (by simp)
  simp only [List.forall_mem_cons]
  exact ⟨Json.readable_arr_map CompilationUnit.readable _,Json.readable_arr_map Endpoint.readable _,
    Json.readable_stringLists _,Json.readable_strings _,Json.readable_stringLists _,.bool _,nofun⟩

/-- Counts that a numeral can hold. -/
def Model.Stats.Small (stats : Stats) : Prop :=
  ∀ count ∈ [stats.packageCount,stats.classCount,stats.methodCount,stats.endpointCount,
    stats.enumCount], (Nat.toDigits 10 count).length ≤ Text.numeralLimit

instance (stats : Model.Stats) : Decidable stats.Small := inferInstanceAs (Decidable (∀ _ ∈ _,_))

theorem Model.small_empty : ({} : Model).stats.Small := by
  decide

theorem Model.Stats.readable {stats : Stats} (small : stats.Small) :
    Readable (depth + 1) (.obj stats.fields) := by
  apply Readable.obj (by simp [fields])
  simp only [Small,List.forall_mem_cons] at small
  obtain ⟨packages,classes,methods,endpoints,enums,_⟩ := small
  simp only [fields,List.forall_mem_cons]
  exact ⟨.int packages,.int classes,.int methods,.int endpoints,.int enums,nofun⟩

/-- The text of an analysis is read as the analysis, if its counts are numerals. -/
theorem Store.read_describe (owner name clock sourceRoot : String) (sourceFiles : List String)
    {model : Model} (small : model.stats.Small) :
    Json.read (describe owner name clock sourceRoot sourceFiles model).toJson.print =
      .ok (describe owner name clock sourceRoot sourceFiles model).toJson := by
  apply Json.read_print
  apply Readable.obj (by simp)
  simp only [List.forall_mem_cons]
  exact ⟨.str _,.str _,.str _,.str _,.str _,Json.readable_strings _,Model.Stats.readable small,
    Model.readable model,nofun⟩

end Readable

namespace Store
variable {store : Store} {owner name : String} {world after : World} {analysis : StoredAnalysis}

theorem run_save (model : Model) (sourceRoot : String) (sourceFiles : List String) :
    (store.save owner name model sourceRoot sourceFiles).run.run world =
      let analysis := describe owner name world.clock sourceRoot sourceFiles model
      match world.disk.write world.here (store.fileOf owner name)
          (Text.Utf8.encode analysis.toJson.print) with
      | .ok disk => (.ok analysis,{world with disk})
      | .error fault => (.error (.disk fault),world) := by
  rw [save,Action.run_bind,Action.run_get]
  dsimp only
  have file (analysis : StoredAnalysis) (ownerText : analysis.owner = .str owner)
      (nameText : analysis.name = .str name) :
      store.fileOf analysis.owner.text analysis.name.text = store.fileOf owner name := by
    rw [ownerText,nameText]
    rfl
  rw [put,Action.run_bind,Action.run_write,String.toList_ofList,file _ rfl rfl]
  cases world.disk.write world.here (store.fileOf owner name) (Text.Utf8.encode
    (describe owner name world.clock sourceRoot sourceFiles model).toJson.print) <;> rfl

theorem written_of_save {model : Model} {sourceRoot : String} {sourceFiles : List String}
    (saved : (store.save owner name model sourceRoot sourceFiles).run.run world =
      (.ok analysis,after)) :
    analysis = describe owner name world.clock sourceRoot sourceFiles model ∧
      after.here = world.here ∧
      world.disk.write world.here (store.fileOf owner name)
        (Text.Utf8.encode analysis.toJson.print) = .ok after.disk := by
  rw [run_save] at saved
  dsimp only at saved
  split at saved
  · next disk written =>
    cases saved
    exact ⟨rfl,rfl,written⟩
  · cases saved

theorem run_load (bytes : world.disk.read world.here (store.fileOf owner name) =
      .ok (Text.Utf8.encode analysis.toJson.print))
    (faithful : Json.read analysis.toJson.print = .ok analysis.toJson) :
    (store.load owner name).run.run world = (.ok (some analysis),world) := by
  have plain := Json.isPlain_print analysis.toJson
  have document : Json.read (Text.Utf8.unifyLineBreaks analysis.toJson.print) =
      .ok analysis.toJson := by
    rw [Text.Utf8.unifyLineBreaks_plain plain,faithful]
  have there : (store.isThere owner name).run.run world = (.ok true,world) := by
    rw [isThere,Action.run_bind,Action.run_find?,Disk.find?_of_read bytes]
    rfl
  have value := Action.run_readDocument bytes (Text.Utf8.decode_encode_plain plain) document
  rw [load,Action.run_bind,there]
  dsimp only
  rw [if_pos rfl,Action.run_bind,value]
  rfl

end Store

/-- Reading gives back a reachable model from its document, and loading gives it back from the
file in which it was saved, provided that the text of the document is read as the document. -/
theorem model_survives_storage {model : Model} (reachable : model.Reachable) :
    Model.ofJson model.toJson = .ok model ∧
      ∀ (store : Store) (owner name sourceRoot : String) (sourceFiles : List String)
        (world after : World) (analysis : StoredAnalysis),
        (store.save owner name model sourceRoot sourceFiles).run.run world = (.ok analysis,after) →
        Json.read analysis.toJson.print = .ok analysis.toJson →
        ∃ loaded again, (store.load owner name).run.run after = (.ok (some loaded),after) ∧
          Model.ofJson loaded.model = .ok again ∧ again = model ∧
          loaded.stats = .obj again.stats.fields := by
  have again := Model.ofJson_toJson reachable.coherent
  refine ⟨again,?_⟩
  intro store owner name sourceRoot sourceFiles world after analysis saved faithful
  obtain ⟨described,here,written⟩ := Store.written_of_save saved
  have bytes := Disk.read_of_write written
  rw [← here] at bytes
  refine ⟨analysis,model,Store.run_load bytes faithful,?_,rfl,?_⟩
  · rw [described]
    exact again
  · rw [described]
    rfl

/-- Empty parentheses of an annotation and none at all are kept apart. -/
theorem model_survives_storage_marks :
    let marks : List AnnotationUse := [⟨"Test",none⟩,⟨"Test",some ""⟩]
    let method : Method := {name := "run",signature := "void run()",annotations := marks}
    let unit : CompilationUnit := {name := "A",package := "p",file := "A.java",methods := [method]}
    let model := ((Model.Change.add {unit}).run.run {}).2
    let store : Store := ⟨⟨1,[]⟩⟩
    ∃ analysis after,
      (store.save "local" "p" model "/p" ["A.java"]).run.run {} = (.ok analysis,after) ∧
      ∃ loaded, (store.load "local" "p").run.run after = (.ok (some loaded),after) ∧
        Model.ofJson loaded.model = .ok model := by
  intro marks method unit model store
  have written (bytes : List UInt8) : ({} : Disk).write [] (store.fileOf "local" "p") bytes =
      .ok (({} : Disk).withFile ["local-p.json"] bytes) := rfl
  have saved := @Store.run_save store "local" "p" {} model "/p" ["A.java"]
  dsimp only at saved
  rw [written] at saved
  have small : model.stats.Small := by
    have few : ∀ count ∈ [1,1,1,0,0], (Nat.toDigits 10 count).length ≤ Text.numeralLimit := by
      decide
    exact few
  have faithful := Store.read_describe "local" "p" "" "/p" ["A.java"] small
  obtain ⟨_,stored⟩ := model_survives_storage (.add .empty {unit})
  obtain ⟨loaded,again,found,read,rfl,_⟩ :=
    stored store "local" "p" "/p" ["A.java"] _ _ _ saved faithful
  exact ⟨_,_,saved,loaded,found,read⟩

end JavaAtlas
