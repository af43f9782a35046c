import JavaAtlas.Proofs.Forest
import JavaAtlas.Proofs.Resolution
import JavaAtlas.Report.Page

/-! Models that differ in the order and in the files of their units alone. Order leaks into the maps
and into the lists of subclasses; whatever is shown is sorted first and tells of no file, so that
models alike show the same. -/
namespace JavaAtlas

namespace Text
variable {α β : Type}

theorem sortedBy_eq_of_perm {key : α → String} {items others : List α} (perm : items.Perm others)
    (distinct : (items.map key).Nodup) : sortedBy key items = sortedBy key others := by
  refine List.Perm.eq_of_pairwise ?_ (pairwise_sortedBy key items) (pairwise_sortedBy key others)
    ((perm_sortedBy key items).trans (perm.trans (perm_sortedBy key others).symm))
  intro one two inOne inTwo below above
  exact List.inj_on_of_nodup_map distinct (mem_sortedBy.mp inOne)
    (perm.mem_iff.mpr (mem_sortedBy.mp inTwo)) (le_antisymm below above)

theorem sorted_eq_of_perm {texts others : List String} (perm : texts.Perm others) :
    sorted texts = sorted others := by
  refine List.Perm.eq_of_pairwise ?_ (pairwise_sortedBy id texts) (pairwise_sortedBy id others)
    ((perm_sorted texts).trans (perm.trans (perm_sorted others).symm))
  intro one two _ _ below above
  exact le_antisymm below above

theorem map_sortedBy {key : α → String} {other : β → String} {f : α → β}
    (same : ∀ item, other (f item) = key item) (items : List α) :
    (sortedBy key items).map f = sortedBy other (items.map f) := by
  apply List.map_mergeSort
  intro one _ two _
  rw [same,same]

end Text

namespace OrderedMap

theorem values_eq_filterMap {α : Type} (map : OrderedMap String α) :
    map.values = map.keys.filterMap map.get? := by
  rw [values,keys,List.filterMap_map,← List.filterMap_eq_map]
  apply List.filterMap_congr
  intro entry member
  exact (get?_eq_some.mpr member).symm

end OrderedMap

namespace ClassTree
variable {α β γ : Type}

mutual
/-- The tree with its units replaced. -/
def map (f : α → β) : ClassTree α → ClassTree β
  | .node unit children => .node (f unit) (mapAll f children)

def mapAll (f : α → β) : List (ClassTree α) → List (ClassTree β)
  | [] => []
  | tree :: rest => map f tree :: mapAll f rest
end

theorem mapAll_eq (f : α → β) (trees : List (ClassTree α)) : mapAll f trees = trees.map (map f) := by
  induction trees with
  | nil => rfl
  | cons tree rest ih => rw [mapAll,ih,List.map_cons]

mutual
theorem map_map (f : α → β) (g : β → γ) : ∀ tree : ClassTree α, (tree.map f).map g = tree.map (g ∘ f)
  | .node unit children => by
    rw [map,map,map,mapAll_mapAll]
    rfl

theorem mapAll_mapAll (f : α → β) (g : β → γ) :
    ∀ trees : List (ClassTree α), mapAll g (mapAll f trees) = mapAll (g ∘ f) trees
  | [] => rfl
  | tree :: rest => by rw [mapAll,mapAll,mapAll,map_map,mapAll_mapAll]
end

mutual
theorem flatten_map (f : α → β) (depth : Int) : ∀ tree : ClassTree α,
    flatten depth (tree.map f) = (flatten depth tree).map fun entry => (f entry.1,entry.2)
  | .node unit children => by
    rw [map,flatten,flatten,List.map_cons,flattenAll_mapAll]

theorem flattenAll_mapAll (f : α → β) (depth : Int) : ∀ trees : List (ClassTree α),
    flattenAll depth (mapAll f trees) =
      (flattenAll depth trees).map fun entry => (f entry.1,entry.2)
  | [] => rfl
  | tree :: rest => by
    rw [mapAll,flattenAll,flattenAll,List.map_append,flatten_map,flattenAll_mapAll]
end

end ClassTree

/-- The unit from wherever it was read, with its subclasses in the order of their names. -/
def CompilationUnit.inOrder (unit : CompilationUnit) : CompilationUnit :=
  {unit with file := "", subclasses := Text.sorted unit.subclasses}

namespace Model

/-- The models hold the same units, but for their files and the order of units and subclasses. -/
structure Alike (first second : Model) : Prop where
  keys : first.units.keys.Perm second.units.keys
  units : ∀ name, (first.units.get? name).map CompilationUnit.inOrder =
    (second.units.get? name).map CompilationUnit.inOrder
  packages : first.packages.keys.Perm second.packages.keys
  names : ∀ package, ((first.packages.get? package).getD []).Perm
    ((second.packages.get? package).getD [])

namespace Alike
variable {first second : Model}

theorem contains (alike : Alike first second) (name : String) :
    first.units.contains name = second.units.contains name := by
  rw [Bool.eq_iff_iff,OrderedMap.contains_iff,OrderedMap.contains_iff,alike.keys.mem_iff]

theorem resolution (alike : Alike first second) (reference package : String) :
    first.resolution reference package = second.resolution reference package := by
  have candidates : first.candidates reference = second.candidates reference := by
    rw [candidates,candidates,Text.sorted_eq_of_perm alike.packages]
    apply List.filterMap_congr
    intro package _
    have same : ((first.packages.get? package).getD []).contains reference =
        ((second.packages.get? package).getD []).contains reference := by
      rw [Bool.eq_iff_iff,List.contains_iff_mem,List.contains_iff_mem,(alike.names package).mem_iff]
    rw [same]
  rw [Model.resolution,Model.resolution,alike.contains,candidates]

theorem reading (alike : Alike first second) (name : String) :
    first.reading name = second.reading name := by
  -- A reference is made by superclass and package, which the order of subclasses leaves alone.
  have view (model : Model) : model.reading name =
      ((model.units.get? name).map CompilationUnit.inOrder).bind fun unit =>
        unit.superclass.map fun reference => (reference,model.resolution reference unit.package) := by
    rw [Model.reading,Option.bind_map]
    rfl
  rw [view,view,alike.units]
  simp only [alike.resolution]

theorem values (alike : Alike first second) : (first.units.values.map CompilationUnit.inOrder).Perm
    (second.units.values.map CompilationUnit.inOrder) := by
  rw [OrderedMap.values_eq_filterMap,OrderedMap.values_eq_filterMap,List.map_filterMap,
    List.map_filterMap]
  simp only [alike.units]
  exact alike.keys.filterMap _

theorem roots (alike : Alike first second) : (first.roots.map CompilationUnit.inOrder).Perm
    (second.roots.map CompilationUnit.inOrder) := by
  have view (model : Model) : model.roots.map CompilationUnit.inOrder =
      (model.units.values.map CompilationUnit.inOrder).filter model.isRoot := by
    rw [Model.roots,List.filter_map]
    rfl
  have same : first.isRoot = second.isRoot := by
    funext unit
    simp only [isRoot,alike.contains]
  rw [view,view,same]
  exact alike.values.filter _

/-- Trees grown in models alike differ in nothing but the order in which units list their
subclasses. -/
theorem grow (alike : Alike first second) {available others : List String}
    (left : available.Perm others) {unit other : CompilationUnit}
    (same : unit.inOrder = other.inOrder) :
    (ClassTree.grow first.units available unit).map CompilationUnit.inOrder =
      (ClassTree.grow second.units others other).map CompilationUnit.inOrder := by
  induction available, unit using ClassTree.grow.induct generalizing others other with
  | case1 available unit ih =>
    have sorted : Text.sorted unit.subclasses = Text.sorted other.subclasses :=
      congrArg CompilationUnit.subclasses same
    rw [ClassTree.grow,ClassTree.grow,ClassTree.map,ClassTree.map,ClassTree.mapAll_eq,
      ClassTree.mapAll_eq,same,List.map_filterMap,List.map_filterMap,sorted]
    congr 1
    apply List.filterMap_congr
    intro name _
    by_cases inside : name ∈ available
    · rw [dif_pos inside,dif_pos (left.mem_iff.mp inside),Option.map_map,Option.map_map]
      have here := alike.units name
      cases one : first.units.get? name with
      | none =>
        rw [one,Option.map_none] at here
        rw [Option.map_eq_none_iff.mp here.symm]
        rfl
      | some child =>
        rw [one,Option.map_some] at here
        obtain ⟨heir,two,alike⟩ := Option.map_eq_some_iff.mp here.symm
        rw [two,Option.map_some,Option.map_some]
        exact congrArg some (ih name inside child (left.erase name) alike.symm)
    · rw [dif_neg inside,dif_neg (fun member => inside (left.mem_iff.mpr member))]

theorem refl (model : Model) : Alike model model :=
  ⟨.refl _,fun _ => rfl,.refl _,fun _ => .refl _⟩

theorem sorted_roots (alike : Alike first second) (coherent : first.Coherent) :
    (Text.sortedBy CompilationUnit.qualifiedName first.roots).map CompilationUnit.inOrder =
      (Text.sortedBy CompilationUnit.qualifiedName second.roots).map CompilationUnit.inOrder := by
  have named (unit : CompilationUnit) : unit.inOrder.qualifiedName = unit.qualifiedName := rfl
  have distinct : ((first.roots.map CompilationUnit.inOrder).map
      CompilationUnit.qualifiedName).Nodup := by
    rw [List.map_map]
    exact coherent.nodup_qualifiedNames.sublist (List.filter_sublist.map _)
  rw [Text.map_sortedBy named,Text.map_sortedBy named,
    Text.sortedBy_eq_of_perm alike.roots distinct]

/-- A forest by the roots in order and what grows from them in a model alike. -/
theorem forest_eq (alike : Alike first second) :
    ClassTree.mapAll CompilationUnit.inOrder first.forest =
      ((Text.sortedBy CompilationUnit.qualifiedName first.roots).map CompilationUnit.inOrder).map
        fun root => (ClassTree.grow second.units (second.units.keys.erase root.qualifiedName)
          root).map CompilationUnit.inOrder := by
  have again (unit : CompilationUnit) : unit.inOrder = unit.inOrder.inOrder := by
    have sorted := Text.sorted_eq_of_perm (Text.perm_sorted unit.subclasses)
    rw [CompilationUnit.inOrder,CompilationUnit.inOrder]
    dsimp only
    rw [sorted]
  rw [ClassTree.mapAll_eq,Model.forest,List.map_map,List.map_map]
  apply List.map_congr_left
  intro root _
  exact alike.grow (alike.keys.erase root.qualifiedName) (again root)

theorem forest (alike : Alike first second) (coherent : first.Coherent) :
    ClassTree.mapAll CompilationUnit.inOrder first.forest =
      ClassTree.mapAll CompilationUnit.inOrder second.forest := by
  rw [forest_eq alike,forest_eq (refl second),alike.sorted_roots coherent]

theorem unitsOf (alike : Alike first second) (package : String) :
    (Report.unitsOf first package).map CompilationUnit.inOrder =
      (Report.unitsOf second package).map CompilationUnit.inOrder := by
  rw [Report.unitsOf,Report.unitsOf,Text.sorted_eq_of_perm (alike.names package),
    List.map_filterMap,List.map_filterMap]
  simp only [alike.units]

/-- The hierarchy is shown alike, letter by letter. -/
theorem hierarchy (alike : Alike first second) (coherent : first.Coherent) :
    Report.hierarchy first = Report.hierarchy second := by
  have packages : ((Text.sorted first.packages.keys).map fun package =>
      (package,Report.unitsOf first package)).flatMap Report.packageSummary =
        ((Text.sorted second.packages.keys).map fun package =>
          (package,Report.unitsOf second package)).flatMap Report.packageSummary := by
    rw [Text.sorted_eq_of_perm alike.packages,List.flatMap_map,List.flatMap_map]
    apply List.flatMap_congr
    intro package _
    have entries := congrArg (List.map Report.packageEntry) (alike.unitsOf package)
    rw [List.map_map,List.map_map] at entries
    rw [Report.packageSummary,Report.packageSummary]
    exact congrArg (fun entries => ["### " ++ package,""] ++ entries ++ [""]) entries
  have tree : (ClassTree.flattenAll 0 first.forest).map Report.treeEntry =
      (ClassTree.flattenAll 0 second.forest).map Report.treeEntry := by
    have lines := congrArg (fun trees => (ClassTree.flattenAll 0 trees).map Report.treeEntry)
      (alike.forest coherent)
    rw [ClassTree.flattenAll_mapAll,ClassTree.flattenAll_mapAll,List.map_map,List.map_map] at lines
    exact lines
  rw [Report.hierarchy,Report.hierarchy,Report.hierarchyPage,Report.hierarchyPage,packages,tree]

theorem superclassOf (alike : Alike first second) (name : String) :
    first.superclassOf name = second.superclassOf name := by
  rw [Model.superclassOf,Model.superclassOf,alike.reading]

theorem heirs (alike : Alike first second) (name : String) :
    (first.heirs first.units.keys name).Perm (second.heirs second.units.keys name) := by
  rw [Model.heirs,Model.heirs]
  simp only [alike.superclassOf]
  exact alike.keys.filter _

/-- A unit and its like come out of resolution alike: with the same superclass, and with the same
subclasses up to their order. -/
theorem rewritten (alike : Alike first second) (name : String) {unit other : CompilationUnit}
    (same : unit.inOrder = other.inOrder) :
    (first.rewritten first.units.keys name unit).inOrder =
      (second.rewritten second.units.keys name other).inOrder := by
  have superclass := congrArg CompilationUnit.superclass same
  change unit.superclass = other.superclass at superclass
  have listed : unit.subclasses.Perm other.subclasses := by
    have sorted := congrArg CompilationUnit.subclasses same
    change Text.sorted unit.subclasses = Text.sorted other.subclasses at sorted
    exact (Text.perm_sorted _).symm.trans (sorted ▸ Text.perm_sorted _)
  have heirs := (alike.heirs name).filter fun heir => !unit.subclasses.contains heir
  have known (heir : String) : unit.subclasses.contains heir = other.subclasses.contains heir := by
    rw [Bool.eq_iff_iff,List.contains_iff_mem,List.contains_iff_mem,listed.mem_iff]
  have sorted := Text.sorted_eq_of_perm (listed.append heirs)
  have rewritten : ({unit.inOrder with
      superclass := if name ∈ first.units.keys then first.superclassOf name else unit.superclass
      subclasses := Text.sorted (unit.subclasses ++
        (first.heirs first.units.keys name).filter fun heir => !unit.subclasses.contains heir)} :
          CompilationUnit) = (second.rewritten second.units.keys name other).inOrder := by
    rw [same,sorted,superclass,alike.superclassOf]
    simp only [alike.keys.mem_iff,known]
    rfl
  exact rewritten

theorem related (alike : Alike first second) (one : first.Coherent) (two : second.Coherent) :
    Alike first.related second.related := by
  refine ⟨?_,?_,?_,?_⟩
  · rw [keys_related one,keys_related two]
    exact alike.keys
  · intro name
    have here := alike.units name
    rw [get?_related one,get?_related two]
    cases found : first.units.get? name with
    | none =>
      rw [found,Option.map_none] at here
      rw [Option.map_eq_none_iff.mp here.symm]
      rfl
    | some unit =>
      rw [found,Option.map_some] at here
      obtain ⟨other,place,same⟩ := Option.map_eq_some_iff.mp here.symm
      rw [place,Option.map_some,Option.map_some,Option.map_some,Option.map_some,
        alike.rewritten name same.symm]
  · rw [packages_related,packages_related]
    exact alike.packages
  · intro package
    rw [packages_related,packages_related]
    exact alike.names package

/-- The same references are in dispute, between the same names. -/
theorem ambiguities (alike : Alike first second) (one : first.Coherent) (two : second.Coherent)
    (quiet : first.ambiguities = .empty) (still : second.ambiguities = .empty) (name : String) :
    first.related.ambiguities.get? name = second.related.ambiguities.get? name := by
  rw [related_eq one,related_eq two]
  apply Option.ext
  intro rivals
  have here := @get?_ambiguities first first.units.keys name quiet first.units.nodup_keys rivals
  have there := @get?_ambiguities second second.units.keys name still second.units.nodup_keys rivals
  rw [alike.reading,alike.keys.mem_iff] at here
  exact here.trans there.symm

end Alike

end Model

end JavaAtlas
