import JavaAtlas.Proofs.Alike
import JavaAtlas.Proofs.Comments
import JavaAtlas.Proofs.Tables

/-! Files merged in one order and in another. Where no two of them declare the same name, both
models hold the same units and the same operations; each operation belongs to the unit of its own
file, so that no order gets into a table. -/
namespace JavaAtlas

namespace Report

theorem distinctSorted_eq_of_perm {texts others : List String} (perm : texts.Perm others) :
    distinctSorted texts = distinctSorted others := by
  apply Text.sorted_eq_of_perm
  rw [List.perm_ext_iff_of_nodup (nodup_eraseDups texts) (nodup_eraseDups others)]
  intro text
  rw [List.mem_eraseDups,List.mem_eraseDups,perm.mem_iff]

/-- The groups of operations are fixed by the operations of each class in their order. -/
theorem packageGroups_congr {endpoints others : List Endpoint} (perm : endpoints.Perm others)
    (same : ∀ package name,
      (endpoints.filter fun endpoint => endpoint.className == name && endpoint.package == package) =
        others.filter fun endpoint => endpoint.className == name && endpoint.package == package) :
    packageGroups endpoints = packageGroups others := by
  rw [packageGroups,packageGroups,distinctSorted_eq_of_perm (perm.map Endpoint.package)]
  apply List.map_congr_left
  intro package _
  have inside := perm.filter fun endpoint => endpoint.package == package
  rw [classGroups,classGroups,distinctSorted_eq_of_perm (inside.map Endpoint.className)]
  simp only [List.filter_filter,same]

end Report

namespace Extraction

def name (extraction : Extraction) : String := extraction.unit.qualifiedName

section Order
variable {extractions permuted : List Extraction}

/-- The operations of a class are those of the files that declare it. -/
theorem filter_endpoints (owned : ∀ extraction ∈ extractions, extraction.Owned)
    (package name : String) :
    ((extractions.flatMap endpoints).filter fun endpoint =>
      endpoint.className == name && endpoint.package == package) =
        (extractions.filter fun extraction =>
          extraction.unit.name == name && extraction.unit.package == package).flatMap endpoints := by
  induction extractions with
  | nil => rfl
  | cons extraction extractions ih =>
    rw [List.forall_mem_cons] at owned
    have own : ∀ endpoint ∈ extraction.endpoints,
        (endpoint.className == name && endpoint.package == package) =
          (extraction.unit.name == name && extraction.unit.package == package) := by
      intro endpoint member
      have serves := owned.1 endpoint member
      rw [serves.name,serves.package]
    rw [List.flatMap_cons,List.filter_append,ih owned.2,List.filter_congr own,List.filter_cons]
    cases extraction.unit.name == name && extraction.unit.package == package <;> simp

/-- Items that share a key, where no two do, have but one order. -/
theorem eq_of_perm_of_key {α : Type} {key : α → String} {items others : List α}
    (distinct : (items.map key).Nodup) (perm : items.Perm others) (shared : String)
    (same : ∀ item ∈ items, key item = shared) : items = others := by
  match items with
  | [] => exact perm.nil_eq
  | [item] => exact List.singleton_perm.mp perm
  | first :: second :: rest =>
    rw [List.map_cons,List.nodup_cons] at distinct
    refine absurd ?_ distinct.1
    rw [same first (by simp),← same second (by simp)]
    simp

/-- One file at most declares a class, wherever it stands in the list. -/
theorem filter_perm (distinct : (extractions.map name).Nodup) (perm : extractions.Perm permuted)
    (package name : String) :
    (extractions.filter fun extraction =>
      extraction.unit.name == name && extraction.unit.package == package) =
        permuted.filter fun extraction =>
          extraction.unit.name == name && extraction.unit.package == package := by
  apply eq_of_perm_of_key (distinct.sublist (List.filter_sublist.map Extraction.name))
    (perm.filter _) (qualify package name)
  intro extraction member
  have here := (List.mem_filter.mp member).2
  rw [Bool.and_eq_true,beq_iff_eq,beq_iff_eq] at here
  rw [Extraction.name,CompilationUnit.qualifiedName,here.1,here.2]

theorem api_perm (owned : ∀ extraction ∈ extractions, extraction.Owned)
    (distinct : (extractions.map name).Nodup) (perm : extractions.Perm permuted) :
    Report.packageGroups (extractions.flatMap endpoints) =
      Report.packageGroups (permuted.flatMap endpoints) := by
  apply Report.packageGroups_congr (perm.flatMap_right _)
  intro package name
  rw [filter_endpoints owned,filter_perm distinct perm,filter_endpoints]
  intro extraction member
  exact owned extraction (perm.mem_iff.mpr member)

end Order

end Extraction

namespace Model
variable {model built : Model} {extractions : List Extraction}

/-- What merging gives where all names are new: every unit under its name, and every operation. -/
theorem addAll_fresh (isOpen : model.resolved = false)
    (fresh : (model.units.keys ++ extractions.map Extraction.name).Nodup)
    (run : model.addAll extractions = .ok built) :
    built.units.entries = model.units.entries ++
        extractions.map (fun extraction => (extraction.name,extraction.unit)) ∧
      built.endpoints = model.endpoints ++ extractions.flatMap Extraction.endpoints := by
  induction extractions generalizing model with
  | nil =>
    cases run
    simp
  | cons extraction rest ih =>
    have absent : extraction.name ∉ model.units.keys := fun member =>
      (List.nodup_append.mp fresh).2.2 _ member _ List.mem_cons_self rfl
    have entries : (model.merged extraction).units.entries =
        model.units.entries ++ [(extraction.name,extraction.unit)] :=
      OrderedMap.entries_insert_of_not_mem absent extraction.unit
    rcases add_cases isOpen extraction with ⟨_,taken⟩ | ⟨known,_⟩
    · rw [addAll,List.foldlM_cons,taken] at run
      have further : ((model.merged extraction).units.keys ++ rest.map Extraction.name).Nodup := by
        simpa [OrderedMap.keys,entries] using fresh
      obtain ⟨units,endpoints⟩ := @ih (model.merged extraction) isOpen further run
      rw [units,endpoints,entries]
      simp [merged]
    · exact absurd known absent

theorem Alike.of_perm {first second : Model} (one : first.Coherent) (two : second.Coherent)
    (perm : first.units.entries.Perm second.units.entries) : Alike first second := by
  have values : first.units.values.Perm second.units.values := perm.map Prod.snd
  refine ⟨perm.map Prod.fst,?_,?_,?_⟩
  · intro name
    have same : first.units.get? name = second.units.get? name := by
      apply Option.ext
      intro unit
      rw [OrderedMap.get?_eq_some,OrderedMap.get?_eq_some,perm.mem_iff]
    rw [same]
  · rw [List.perm_ext_iff_of_nodup first.packages.nodup_keys second.packages.nodup_keys]
    intro package
    rw [one.mem_packages,two.mem_packages]
    simp only [values.mem_iff]
  · intro package
    rw [one.get?_packages,two.get?_packages]
    exact (values.filter _).map _

/-- The order in which files are merged is seen nowhere: not in what references stand for, nor in
the links, the forest and the reports. -/
theorem merge_order {extractions permuted : List Extraction}
    (read : ∀ extraction ∈ extractions, ∃ content file language,
      Extraction.read? content file language = some extraction)
    (distinct : (extractions.map fun extraction => extraction.unit.qualifiedName).Nodup)
    (perm : extractions.Perm permuted) :
    ∃ built first other second,
      ({} : Model).addAll extractions = .ok built ∧ built.resolve = .ok first ∧
      ({} : Model).addAll permuted = .ok other ∧ other.resolve = .ok second ∧
      (∀ name, name ∈ first.units.keys ↔ name ∈ second.units.keys) ∧
      (∀ name one two, first.units.get? name = some one → second.units.get? name = some two →
        one.superclass = two.superclass ∧
          ∀ child, child ∈ one.subclasses ↔ child ∈ two.subclasses) ∧
      (∀ name, first.ambiguities.get? name = second.ambiguities.get? name) ∧
      ClassTree.mapAll CompilationUnit.qualifiedName first.forest =
        ClassTree.mapAll CompilationUnit.qualifiedName second.forest ∧
      Report.hierarchy first = Report.hierarchy second ∧
      Report.api first = Report.api second := by
  have owned : ∀ extraction ∈ extractions, extraction.Owned := by
    intro extraction member
    obtain ⟨content,file,language,here⟩ := read extraction member
    exact Extraction.owned_of_read here
  obtain ⟨built,run,grown⟩ := @addAll_open {} rfl extractions
  obtain ⟨other,again,also⟩ := @addAll_open {} rfl permuted
  have one := (grown.reachable .empty).coherent
  have two := (also.reachable .empty).coherent
  obtain ⟨units,endpoints⟩ := @addAll_fresh {} built extractions rfl distinct run
  obtain ⟨others,served⟩ := @addAll_fresh {} other permuted rfl
    ((perm.map Extraction.name).nodup distinct) again
  have merged : Alike built other := by
    apply Alike.of_perm one two
    rw [units,others]
    exact (perm.map _).append_left _
  have alike := merged.related one two
  have coherent := one.related
  refine ⟨built,built.related,other,other.related,run,resolve_open grown.isOpen,again,
    resolve_open also.isOpen,fun name => alike.keys.mem_iff,?_,
    merged.ambiguities one two grown.ambiguities also.ambiguities,?_,alike.hierarchy coherent,?_⟩
  · intro name here there found place
    have same := alike.units name
    rw [found,place,Option.map_some,Option.map_some] at same
    have like := Option.some.inj same
    have superclass := congrArg CompilationUnit.superclass like
    have subclasses := congrArg CompilationUnit.subclasses like
    change Text.sorted here.subclasses = Text.sorted there.subclasses at subclasses
    refine ⟨superclass,?_⟩
    intro child
    rw [← Text.mem_sorted,subclasses,Text.mem_sorted]
  · have named := congrArg (ClassTree.mapAll CompilationUnit.qualifiedName) (alike.forest coherent)
    rw [ClassTree.mapAll_mapAll,ClassTree.mapAll_mapAll] at named
    exact named
  · rw [Report.api,Report.api,endpoints_related one,endpoints_related two,endpoints,served]
    exact congrArg Report.apiPage (Extraction.api_perm owned distinct perm)

/-- A class between two superclasses of the name it gives, read before or after them. -/
theorem merge_order_between :
    let low := Extraction.ofText "package r;class Low extends High".toList "r/Low.java"
    let one := Extraction.ofText "package p;class High".toList "p/High.java"
    let two := Extraction.ofText "package q;class High".toList "q/High.java"
    ([low,one,two].map fun extraction => extraction.unit.qualifiedName) =
        ["r.Low","p.High","q.High"] ∧
      ∃ first second,
        (({} : Model).addAll [low,one,two]).bind resolve = .ok first ∧
        (({} : Model).addAll [two,one,low]).bind resolve = .ok second ∧
        Report.hierarchy first = Report.hierarchy second ∧
        Report.api first = Report.api second := by
  intro low one two
  have names : ([low,one,two].map fun extraction => extraction.unit.qualifiedName) =
      ["r.Low","p.High","q.High"] := by decide +kernel
  have read : ∀ extraction ∈ [low,one,two], ∃ content file language,
      Extraction.read? content file language = some extraction := by
    intro extraction member
    simp only [List.mem_cons,List.not_mem_nil,or_false] at member
    rcases member with rfl | rfl | rfl
    all_goals exact ⟨_,_,"java",Extraction.read?_java _ _⟩
  obtain ⟨built,first,other,second,run,done,again,redone,_,_,_,_,hierarchy,api⟩ :=
    merge_order read (by rw [names]; decide) (List.reverse_perm [low,one,two]).symm
  refine ⟨names,first,second,?_,?_,hierarchy,api⟩
  · rw [run]
    exact done
  · have turned : [low,one,two].reverse = [two,one,low] := rfl
    rw [turned] at again
    rw [again]
    exact redone

end Model

end JavaAtlas
