import JavaAtlas.Model.Resolve
import JavaAtlas.Summary.Plain

/-! Units and package index of a model in step: what is said twice, once by the units and once by
the index, is said alike. The index is kept by hand where a unit comes in, so that this is an
invariant and no matter of course. -/
namespace JavaAtlas.Model

/-- Names of the units of a package, in the order of the units. -/
def namesIn (units : List CompilationUnit) (package : String) : List String :=
  (units.filter fun unit => unit.package == package).map CompilationUnit.name

theorem eraseDups_concat {α : Type} [BEq α] [LawfulBEq α] (items : List α) (item : α) :
    (items ++ [item]).eraseDups =
      if item ∈ items then items.eraseDups else items.eraseDups ++ [item] := by
  rw [List.eraseDups_append]
  by_cases known : item ∈ items
  · have nothing : [item].removeAll items = [] := by simpa [List.removeAll] using known
    rw [nothing,if_pos known]
    simp
  · have single : [item].removeAll items = [item] := by simpa [List.removeAll] using known
    rw [single,if_neg known]
    simp [List.eraseDups_cons]

structure Coherent (model : Model) : Prop where
  keyed : ∀ entry ∈ model.units.entries, entry.1 = entry.2.qualifiedName
  /-- The packages of the units, each where the first of its units stands. -/
  packages : model.packages.keys = (model.units.values.map CompilationUnit.package).eraseDups
  members : ∀ package ∈ model.packages.keys,
    model.packages.get? package = some (namesIn model.units.values package)

/-- All that the index depends on: keys, packages and names of the units. -/
def outline (model : Model) : List (String × String × String) :=
  model.units.entries.map fun entry => (entry.1,entry.2.package,entry.2.name)

theorem keys_outline (model : Model) : model.outline.map (·.1) = model.units.keys := by
  simp [outline,OrderedMap.keys,Function.comp_def]

theorem packages_outline (model : Model) :
    model.outline.map (·.2.1) = model.units.values.map CompilationUnit.package := by
  simp [outline,OrderedMap.values,Function.comp_def]

theorem namesIn_outline (model : Model) (package : String) :
    (model.outline.filter fun line => line.2.1 == package).map (·.2.2) =
      namesIn model.units.values package := by
  simp [outline,namesIn,OrderedMap.values,List.filter_map,Function.comp_def]

theorem keyed_outline (model : Model) :
    (∀ entry ∈ model.units.entries, entry.1 = entry.2.qualifiedName) ↔
      ∀ line ∈ model.outline, line.1 = qualify line.2.1 line.2.2 := by
  simp only [outline,List.forall_mem_map,CompilationUnit.qualifiedName]

theorem Coherent.of_outline {model other : Model} (coherent : model.Coherent)
    (sameOutline : other.outline = model.outline) (samePackages : other.packages = model.packages) :
    other.Coherent where
  keyed := by
    rw [keyed_outline,sameOutline,← keyed_outline]
    exact coherent.keyed
  packages := by
    rw [← packages_outline,sameOutline,packages_outline,samePackages]
    exact coherent.packages
  members := by
    intro package member
    rw [← namesIn_outline,sameOutline,namesIn_outline,samePackages]
    rw [samePackages] at member
    exact coherent.members package member

theorem coherent_empty : ({} : Model).Coherent where
  keyed := by intro entry member; cases member
  packages := rfl
  members := by intro package member; cases member

theorem Coherent.mem_packages {model : Model} (coherent : model.Coherent) (package : String) :
    package ∈ model.packages.keys ↔ ∃ unit ∈ model.units.values, unit.package = package := by
  rw [coherent.packages,List.mem_eraseDups,List.mem_map]

theorem Coherent.get?_packages {model : Model} (coherent : model.Coherent) (package : String) :
    (model.packages.get? package).getD [] = namesIn model.units.values package := by
  by_cases listed : package ∈ model.packages.keys
  · rw [coherent.members package listed,Option.getD_some]
  · rw [OrderedMap.get?_eq_none.mpr listed,Option.getD_none,namesIn,List.filter_eq_nil_iff.mpr,
      List.map_nil]
    intro unit member same
    exact listed ((coherent.mem_packages package).mpr ⟨unit,member,by simpa using same⟩)

theorem Coherent.get?_units {model : Model} (coherent : model.Coherent) {name : String}
    {unit : CompilationUnit} (found : model.units.get? name = some unit) :
    unit.qualifiedName = name :=
  (coherent.keyed (name,unit) (OrderedMap.get?_eq_some.mp found)).symm

theorem Coherent.mem_units {model : Model} (coherent : model.Coherent) {unit : CompilationUnit} :
    unit ∈ model.units.values ↔ model.units.get? unit.qualifiedName = some unit := by
  rw [OrderedMap.mem_values,OrderedMap.get?_eq_some]
  constructor
  · rintro ⟨name,member⟩
    have key : name = unit.qualifiedName := coherent.keyed _ member
    exact key ▸ member
  · intro member
    exact ⟨_,member⟩

theorem Coherent.qualifiedNames_eq {model : Model} (coherent : model.Coherent) :
    model.units.values.map CompilationUnit.qualifiedName = model.units.keys := by
  rw [OrderedMap.values,OrderedMap.keys,List.map_map]
  apply List.map_congr_left
  intro entry member
  exact (coherent.keyed entry member).symm

theorem Coherent.nodup_qualifiedNames {model : Model} (coherent : model.Coherent) :
    (model.units.values.map CompilationUnit.qualifiedName).Nodup := by
  rw [coherent.qualifiedNames_eq]
  exact model.units.distinct

/-- No two units of one package share a name, since package and name make the key. -/
theorem Coherent.nodup_namesIn {model : Model} (coherent : model.Coherent) (package : String) :
    (namesIn model.units.values package).Nodup := by
  have distinct := coherent.nodup_qualifiedNames
  rw [namesIn,List.nodup_iff_pairwise_ne,List.pairwise_map]
  have apart := (List.pairwise_map.mp (List.nodup_iff_pairwise_ne.mp distinct)).filter
    fun unit => unit.package == package
  apply apart.imp_of_mem
  intro first second memberFirst memberSecond differ same
  have inFirst : first.package = package := by simpa using (List.mem_filter.mp memberFirst).2
  have inSecond : second.package = package := by simpa using (List.mem_filter.mp memberSecond).2
  apply differ
  rw [CompilationUnit.qualifiedName,CompilationUnit.qualifiedName,inFirst,inSecond,same]

/-- A unit of a new name comes in at the end, and so does its name in the package. -/
theorem Coherent.enter {model : Model} (coherent : model.Coherent) {unit : CompilationUnit}
    (absent : unit.qualifiedName ∉ model.units.keys) : (model.enter unit).Coherent := by
  have entries : (model.enter unit).units.entries =
      model.units.entries ++ [(unit.qualifiedName,unit)] :=
    OrderedMap.entries_insert_of_not_mem absent unit
  have values : (model.enter unit).units.values = model.units.values ++ [unit] := by
    simp [OrderedMap.values,entries]
  have packages : (model.enter unit).packages.keys =
      if unit.package ∈ model.packages.keys then model.packages.keys
      else model.packages.keys ++ [unit.package] :=
    OrderedMap.keys_insert model.packages unit.package _
  refine ⟨?_,?_,?_⟩
  · intro entry member
    rw [entries,List.mem_append,List.mem_singleton] at member
    rcases member with known | rfl
    · exact coherent.keyed entry known
    · rfl
  · rw [packages,values,List.map_append,List.map_singleton,eraseDups_concat,coherent.packages]
    simp only [List.mem_eraseDups]
  · intro package member
    have added : (model.enter unit).packages.get? package =
        if package = unit.package then
          some ((model.packages.get? unit.package).getD [] ++ [unit.name])
        else model.packages.get? package :=
      OrderedMap.get?_insert model.packages unit.package package _
    rw [added,values,namesIn,List.filter_append,List.map_append]
    by_cases same : package = unit.package
    · subst same
      rw [if_pos rfl,coherent.get?_packages]
      simp [namesIn]
    · have known : package ∈ model.packages.keys := by
        rw [packages] at member
        split at member
        · exact member
        · simpa [same] using member
      rw [if_neg same,coherent.members package known]
      simp [namesIn,Ne.symm same]

theorem outline_put (model : Model) {name : String} {old : CompilationUnit}
    (unit : CompilationUnit) (found : model.units.get? name = some old)
    (samePackage : unit.package = old.package) (sameName : unit.name = old.name) :
    (model.put name unit).outline = model.outline :=
  OrderedMap.map_entries_insert found _ (by rw [samePackage,sameName])

theorem outline_link (model : Model) (child parent : String) :
    (model.link child parent).outline = model.outline := by
  unfold link
  split
  · next unit found =>
    split
    · rfl
    · exact outline_put model _ found rfl rfl
  · rfl

theorem packages_link (model : Model) (child parent : String) :
    (model.link child parent).packages = model.packages := by
  unfold link
  split
  · split <;> rfl
  · rfl

theorem units_note (model : Model) (owner reference : String) (resolution : Resolution) :
    (model.note owner reference resolution).units = model.units := by
  unfold note
  split <;> rfl

theorem outline_note (model : Model) (owner reference : String) (resolution : Resolution) :
    (model.note owner reference resolution).outline = model.outline := by
  rw [outline,units_note,outline]

theorem packages_note (model : Model) (owner reference : String) (resolution : Resolution) :
    (model.note owner reference resolution).packages = model.packages := by
  unfold note
  split <;> rfl

end JavaAtlas.Model
