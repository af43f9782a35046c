import JavaAtlas.Java.Extraction
import JavaAtlas.Proofs.Forest

/-! Operations and the units that serve them. An operation is read only where the text of its unit
has a REST marker, and comes into a model together with the unit; what is done to units later
leaves alone what the operation depends on. -/
namespace JavaAtlas

/-- The operation is one of the unit: the unit is a resource, and the verb of the operation stands
as an annotation on the method that it names. -/
structure CompilationUnit.Serves (unit : CompilationUnit) (endpoint : Endpoint) : Prop where
  name : unit.name = endpoint.className
  package : unit.package = endpoint.package
  isRest : unit.isRestResource = true
  verb : endpoint.httpMethod ∈ Endpoint.verbs
  method : ∃ method ∈ unit.methods, method.name = endpoint.methodName ∧
    ∃ mark ∈ method.annotations, mark.simpleName = endpoint.httpMethod

namespace Extraction
variable (content : List Char) (file : String)

theorem name_ofText : (ofText content file).unit.name = unitName file := rfl

theorem package_ofText :
    (ofText content file).unit.package = Header.packageOf (Lexical.maskComments content) := rfl

theorem methods_ofText : (ofText content file).unit.methods = Method.readAll content := rfl

theorem isRest_ofText : (ofText content file).unit.isRestResource =
    Header.hasRestMarker (Lexical.maskComments content) := rfl

theorem endpoints_ofText :
    (ofText content file).endpoints = Endpoint.readAll content (ofText content file).unit := rfl

/-- What is read from one file belongs together. -/
def Owned (extraction : Extraction) : Prop :=
  ∀ endpoint ∈ extraction.endpoints, extraction.unit.Serves endpoint

theorem owned_ofText : (ofText content file).Owned := by
  intro endpoint member
  rw [endpoints_ofText,Endpoint.readAll] at member
  split at member
  · next marked =>
    obtain ⟨method,inside,read⟩ := List.mem_filterMap.mp member
    obtain ⟨verb,first,rfl⟩ := Option.map_eq_some_iff.mp read
    obtain ⟨mark,among,named⟩ := List.mem_map.mp (List.mem_of_find?_eq_some first)
    have known := List.find?_some first
    have marker := (isRest_ofText content file).trans marked
    exact ⟨rfl,rfl,marker,List.contains_iff_mem.mp known,method,inside,rfl,mark,among,named⟩
  · cases member

theorem owned_of_read {content : List Char} {file language : String} {extraction : Extraction}
    (read : read? content file language = some extraction) : extraction.Owned := by
  rw [read?] at read
  split at read
  · rw [← Option.some.inj read]
    exact owned_ofText content file
  · cases read

end Extraction

namespace Model
variable {model built : Model} {extraction : Extraction} {extractions : List Extraction}

theorem values_merged (absent : extraction.unit.qualifiedName ∉ model.units.keys) :
    (model.merged extraction).units.values = model.units.values ++ [extraction.unit] := by
  rw [merged,enter,OrderedMap.values,OrderedMap.entries_insert_of_not_mem absent,List.map_append]
  rfl

/-- An open model takes a unit of a new name, and answers a known one with a warning. -/
theorem add_cases (isOpen : model.resolved = false) (extraction : Extraction) :
    (extraction.unit.qualifiedName ∉ model.units.keys ∧
      model.add extraction = .ok (model.merged extraction,true)) ∨
    (extraction.unit.qualifiedName ∈ model.units.keys ∧
      ∃ warning, model.add extraction = .ok (model.warn warning,false)) := by
  rw [add,Change.outcome,Change.run_add,isOpen,if_neg Bool.false_ne_true]
  cases found : model.units.get? extraction.unit.qualifiedName with
  | none => exact .inl ⟨OrderedMap.get?_eq_none.mp found,rfl⟩
  | some known => exact .inr ⟨OrderedMap.mem_keys_of_get? found,_,rfl⟩

/-- What merging and warnings keep holds after a run of merging. -/
theorem addAll_invariant {holds : Model → Prop} (isOpen : model.resolved = false)
    (warned : ∀ model warning, holds model → holds (model.warn warning))
    (merges : ∀ model, ∀ extraction ∈ extractions, holds model →
      extraction.unit.qualifiedName ∉ model.units.keys → holds (model.merged extraction))
    (starts : holds model) (run : model.addAll extractions = .ok built) : holds built := by
  induction extractions generalizing model with
  | nil =>
    cases run
    exact starts
  | cons extraction rest ih =>
    have later := fun model other inside => merges model other (List.mem_cons_of_mem _ inside)
    rcases add_cases isOpen extraction with ⟨absent,taken⟩ | ⟨_,warning,left⟩
    · rw [addAll,List.foldlM_cons,taken] at run
      exact @ih (model.merged extraction) isOpen later
        (merges model extraction List.mem_cons_self starts absent) run
    · rw [addAll,List.foldlM_cons,left] at run
      exact @ih (model.warn warning) isOpen later (warned model warning starts) run

/-- Every operation of the model is one of a unit of the model. -/
def Served (model : Model) : Prop :=
  ∀ endpoint ∈ model.endpoints, ∃ unit ∈ model.units.values, unit.Serves endpoint

theorem served_empty : ({} : Model).Served := nofun

theorem Served.merged (served : model.Served) (owned : extraction.Owned)
    (absent : extraction.unit.qualifiedName ∉ model.units.keys) :
    (model.merged extraction).Served := by
  intro endpoint member
  rw [values_merged absent]
  rcases List.mem_append.mp member with known | new
  · obtain ⟨unit,inside,serves⟩ := served endpoint known
    exact ⟨unit,List.mem_append_left _ inside,serves⟩
  · exact ⟨extraction.unit,by simp,owned endpoint new⟩

theorem Served.addAll (served : model.Served) (isOpen : model.resolved = false)
    (owned : ∀ extraction ∈ extractions, extraction.Owned)
    (run : model.addAll extractions = .ok built) : built.Served :=
  addAll_invariant isOpen (fun _ _ => id)
    (fun _ extraction member served => served.merged (owned extraction member)) served run

/-- Resolution rewrites superclasses and subclasses, on which no operation depends. -/
theorem Served.related (served : model.Served) (coherent : model.Coherent) :
    model.related.Served := by
  intro endpoint member
  rw [endpoints_related coherent] at member
  obtain ⟨unit,inside,serves⟩ := served endpoint member
  obtain ⟨name,known⟩ := OrderedMap.mem_values.mp inside
  have place : model.related.units.get? name =
      some (model.rewritten model.units.keys name unit) := by
    rw [get?_related coherent,OrderedMap.get?_eq_some.mpr known,Option.map_some]
  refine ⟨_,OrderedMap.mem_values.mpr ⟨name,OrderedMap.get?_eq_some.mp place⟩,?_⟩
  exact ⟨serves.name,serves.package,serves.isRest,serves.verb,serves.method⟩

/-- Package and name of an operation tell its unit from all others. -/
theorem Coherent.filter_eq_owner (coherent : model.Coherent) {unit : CompilationUnit}
    {endpoint : Endpoint} (inside : unit ∈ model.units.values) (serves : unit.Serves endpoint) :
    (model.units.values.filter fun unit =>
      unit.package == endpoint.package && unit.name == endpoint.className) = [unit] := by
  have distinct : (model.units.values.map fun unit => (unit.package,unit.name)).Nodup := by
    apply List.Nodup.of_map fun pair : String × String => qualify pair.1 pair.2
    rw [List.map_map]
    exact coherent.nodup_qualifiedNames
  have only := filter_eq_of_nodup distinct inside
  rw [← only]
  apply List.filter_congr
  intro other _
  rw [← serves.name,← serves.package,Bool.eq_iff_iff]
  simp

/-- A unit that is no resource has no operations. -/
theorem Served.endpointsOf_eq_nil (served : model.Served) (coherent : model.Coherent)
    {unit : CompilationUnit} (inside : unit ∈ model.units.values)
    (plain : unit.isRestResource = false) : model.endpointsOf unit = [] := by
  rw [endpointsOf,List.filter_eq_nil_iff]
  intro endpoint member same
  rw [Bool.and_eq_true,beq_iff_eq,beq_iff_eq] at same
  obtain ⟨owner,known,serves⟩ := served endpoint member
  have only := coherent.filter_eq_owner known serves
  have here : unit ∈ [owner] := by
    rw [← only,List.mem_filter,same.1,same.2,beq_self_eq_true,beq_self_eq_true]
    exact ⟨inside,rfl⟩
  rw [List.mem_singleton.mp here,serves.isRest] at plain
  cases plain

end Model

end JavaAtlas
