import JavaAtlas.Proofs.Alike
import JavaAtlas.Proofs.Deposits
import JavaAtlas.Proofs.Ownership

/-! Models of the same sources read from other paths. A path gets into the file of a unit and into
warnings, and its last part into the name of the unit; no report tells more of it than that. -/
namespace JavaAtlas

/-- The unit from wherever it was read. -/
def CompilationUnit.unplaced (unit : CompilationUnit) : CompilationUnit := {unit with file := ""}

def Extraction.unplaced (extraction : Extraction) : Extraction :=
  {extraction with unit := extraction.unit.unplaced}

theorem OrderedMap.values_mapValues {α β : Type} (map : OrderedMap String α) (f : α → β) :
    (map.mapValues fun _ => f).values = map.values.map f := by
  rw [values,values,mapValues,List.map_map,List.map_map]
  rfl

namespace Model

/-- The models hold the same units in the same order, but for their files. -/
structure Twins (first second : Model) : Prop where
  units : (first.units.mapValues fun _ => CompilationUnit.unplaced) =
    second.units.mapValues fun _ => CompilationUnit.unplaced
  packages : first.packages = second.packages
  endpoints : first.endpoints = second.endpoints
  enums : first.enums = second.enums
  resolved : first.resolved = second.resolved

namespace Twins
variable {first second : Model} {extraction other : Extraction}

theorem refl (model : Model) : Twins model model := ⟨rfl,rfl,rfl,rfl,rfl⟩

theorem warn (twins : Twins first second) (warning other : String) :
    Twins (first.warn warning) (second.warn other) :=
  ⟨twins.units,twins.packages,twins.endpoints,twins.enums,twins.resolved⟩

theorem keys (twins : Twins first second) : first.units.keys = second.units.keys := by
  have same := congrArg OrderedMap.keys twins.units
  rwa [OrderedMap.keys_mapValues,OrderedMap.keys_mapValues] at same

theorem values (twins : Twins first second) : first.units.values.map CompilationUnit.unplaced =
    second.units.values.map CompilationUnit.unplaced := by
  have same := congrArg OrderedMap.values twins.units
  rwa [OrderedMap.values_mapValues,OrderedMap.values_mapValues] at same

theorem alike (twins : Twins first second) : Alike first second := by
  refine ⟨by rw [twins.keys],?_,by rw [twins.packages],fun package => by rw [twins.packages]⟩
  intro name
  have same := congrArg (fun units => (OrderedMap.get? units name).map CompilationUnit.inOrder)
    twins.units
  rw [OrderedMap.get?_mapValues,OrderedMap.get?_mapValues,Option.map_map,Option.map_map] at same
  exact same

/-- Files that hold the same are merged alike: taken by both models, or by neither. -/
theorem add (twins : Twins first second) (isOpen : first.resolved = false)
    (same : extraction.unplaced = other.unplaced) :
    ∃ one two taken, first.add extraction = .ok (one,taken) ∧ second.add other = .ok (two,taken) ∧
      Twins one two := by
  obtain ⟨unit,endpoints,enums⟩ := Extraction.mk.inj same
  have named := congrArg CompilationUnit.qualifiedName unit
  change extraction.unit.qualifiedName = other.unit.qualifiedName at named
  have alsoOpen : second.resolved = false := twins.resolved ▸ isOpen
  rcases add_cases isOpen extraction with ⟨absent,taken⟩ | ⟨known,warning,left⟩
  · rcases add_cases alsoOpen other with ⟨missing,added⟩ | ⟨there,_⟩
    · refine ⟨_,_,true,taken,added,?_,?_,?_,?_,twins.resolved⟩
      · apply OrderedMap.ext
        change (first.units.insert _ _).entries.map _ = (second.units.insert _ _).entries.map _
        rw [OrderedMap.entries_insert_of_not_mem absent,OrderedMap.entries_insert_of_not_mem missing,
          List.map_append,List.map_append]
        have entries := congrArg OrderedMap.entries twins.units
        exact congrArg₂ (fun entries unit => entries ++ [(unit.qualifiedName,unit)]) entries unit
      · have listed := congrArg₂ enlist twins.packages unit
        exact listed
      · exact congrArg₂ (· ++ ·) twins.endpoints endpoints
      · exact congrArg₂ (fun known more => known.insertAll more.entries) twins.enums enums
    · rw [← twins.keys,← named] at there
      exact absurd there absent
  · rcases add_cases alsoOpen other with ⟨missing,_⟩ | ⟨_,notice,passed⟩
    · rw [← twins.keys,← named] at missing
      exact absurd known missing
    · exact ⟨_,_,false,left,passed,twins.warn _ _⟩

theorem related (twins : Twins first second) (one : first.Coherent) (two : second.Coherent) :
    Twins first.related second.related := by
  have rewritten (name : String) : (fun unit : CompilationUnit =>
      (first.rewritten first.units.keys name unit).unplaced) =
        fun unit => second.rewritten second.units.keys name unit.unplaced := by
    funext unit
    rw [Model.rewritten,Model.rewritten,heirs,heirs]
    simp only [twins.keys,twins.alike.superclassOf]
    rfl
  refine ⟨?_,?_,?_,?_,rfl⟩
  · apply OrderedMap.ext_get?
    · rw [OrderedMap.keys_mapValues,OrderedMap.keys_mapValues,keys_related one,keys_related two,
        twins.keys]
    · intro name _
      have here := congrArg (fun units => (OrderedMap.get? units name).map
        (second.rewritten second.units.keys name)) twins.units
      rw [OrderedMap.get?_mapValues,OrderedMap.get?_mapValues,Option.map_map,Option.map_map] at here
      rw [OrderedMap.get?_mapValues,OrderedMap.get?_mapValues,get?_related one,get?_related two,
        Option.map_map,Option.map_map]
      exact (congrArg (fun step => (first.units.get? name).map step) (rewritten name)).trans here
  · rw [packages_related,packages_related,twins.packages]
  · rw [endpoints_related one,endpoints_related two,twins.endpoints]
  · rw [enums_related one,enums_related two,twins.enums]

theorem methods (twins : Twins first second) : first.methods = second.methods := by
  have same := congrArg (List.flatMap CompilationUnit.methods) twins.values
  rwa [List.flatMap_map,List.flatMap_map] at same

theorem refill_unplaced (entries : List (String × CompilationUnit)) (methods : List Method) :
    (refill entries methods).map (fun entry => (entry.1,entry.2.unplaced)) =
      refill (entries.map fun entry => (entry.1,entry.2.unplaced)) methods := by
  induction entries generalizing methods with
  | nil => rfl
  | cons entry rest ih =>
    rw [List.map_cons,refill,refill,List.map_cons,ih]
    rfl

theorem withMethods (twins : Twins first second) (methods : List Method) :
    Twins (first.withMethods methods) (second.withMethods methods) := by
  refine ⟨?_,twins.packages,twins.endpoints,twins.enums,twins.resolved⟩
  apply OrderedMap.ext
  have entries := congrArg OrderedMap.entries twins.units
  change (refill first.units.entries methods).map _ = (refill second.units.entries methods).map _
  rw [refill_unplaced,refill_unplaced]
  exact congrArg (fun entries => refill entries methods) entries

/-- The same reports are made of both, letter by letter. -/
theorem files (twins : Twins first second) (coherent : first.Coherent) :
    Report.files first = Report.files second := by
  have summaries : Report.summaries first = Report.summaries second := by
    rw [Report.summaries,Report.summaries,Report.api,Report.api,Report.enums?,Report.enums?,
      twins.endpoints,twins.enums,twins.alike.hierarchy coherent]
  have page : Report.pageOf first = Report.pageOf second := by
    funext unit
    refine Prod.ext rfl ?_
    change Report.methodDetails first unit = Report.methodDetails second unit
    rw [Report.methodDetails,Report.methodDetails,endpointsOf,endpointsOf,twins.endpoints]
  have pages := congrArg (List.map (Report.pageOf second)) twins.values
  rw [List.map_map,List.map_map] at pages
  rw [Report.files_eq,Report.files_eq,summaries,page]
  exact congrArg (Report.summaries second ++ ·) pages

end Twins

end Model

end JavaAtlas
