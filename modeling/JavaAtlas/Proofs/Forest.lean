import JavaAtlas.Model.Forest
import JavaAtlas.Proofs.Links
import JavaAtlas.Proofs.Order

/-! The forest of a model whose links were set by resolution. A name is struck out on the way down
only where its unit stands, so a heir is never missing below its superclass, and every unit whose
links leave the model comes up once, at the depth that its links tell. -/
namespace JavaAtlas

namespace ClassTree
variable {α : Type}

mutual
/-- The trees in a tree, itself among them. -/
def nodes : ClassTree α → List (ClassTree α)
  | .node unit children => .node unit children :: nodesAll children

def nodesAll : List (ClassTree α) → List (ClassTree α)
  | [] => []
  | tree :: rest => nodes tree ++ nodesAll rest
end

def name (tree : ClassTree CompilationUnit) : String := tree.unit.qualifiedName

theorem nodesAll_eq (trees : List (ClassTree α)) : nodesAll trees = trees.flatMap nodes := by
  induction trees with
  | nil => rfl
  | cons tree rest ih => rw [nodesAll,ih,List.flatMap_cons]

theorem flattenAll_eq (depth : Int) (trees : List (ClassTree α)) :
    flattenAll depth trees = trees.flatMap (flatten depth) := by
  induction trees with
  | nil => rfl
  | cons tree rest ih => rw [flattenAll,ih,List.flatMap_cons]

mutual
theorem units_flatten (depth : Int) :
    ∀ tree : ClassTree α, (flatten depth tree).map Prod.fst = tree.nodes.map unit
  | .node unit children => by
    rw [flatten,nodes,List.map_cons,List.map_cons,units_flattenAll]
    rfl

theorem units_flattenAll (depth : Int) :
    ∀ trees : List (ClassTree α), (flattenAll depth trees).map Prod.fst = (nodesAll trees).map unit
  | [] => rfl
  | tree :: rest => by
    rw [flattenAll,nodesAll,List.map_append,List.map_append,units_flatten,units_flattenAll]
end

end ClassTree

namespace Model
open ClassTree (flatten flattenAll nodes nodesAll grow flattenAll_eq nodesAll_eq)
open Relation (ReflTransGen TransGen)

/-- A tree that stands where it should: its unit is one of the model, its depth is the number of
links to the outside, and below it stand its heirs in order. -/
inductive Fits (model : Model) : Nat → ClassTree CompilationUnit → Prop
  | node {depth : Nat} {unit : CompilationUnit} {children : List (ClassTree CompilationUnit)}
      (found : model.units.get? unit.qualifiedName = some unit)
      (leaves : Leaves model unit.qualifiedName depth)
      (names : children.map ClassTree.name = Text.sorted unit.subclasses)
      (below : ∀ child ∈ children, Fits model (depth + 1) child) :
      Fits model depth (.node unit children)

theorem filterMap_fits {β : Type} {grown : String → Option β} {name : β → String} {P : β → Prop}
    {names : List String}
    (all : ∀ given ∈ names, ∃ tree, grown given = some tree ∧ name tree = given ∧ P tree) :
    (names.filterMap grown).map name = names ∧ ∀ tree ∈ names.filterMap grown, P tree := by
  induction names with
  | nil => exact ⟨rfl,nofun⟩
  | cons given rest ih =>
    rw [List.forall_mem_cons] at all
    obtain ⟨⟨tree,found,named,holds⟩,others⟩ := all
    obtain ⟨inOrder,each⟩ := ih others
    rw [List.filterMap_cons_some found,List.map_cons,named,inOrder,List.forall_mem_cons]
    exact ⟨rfl,holds,each⟩

section Shape
variable {model : Model} {depth : Nat}

/-- The guard against cycles cuts no heir off: whoever stands deeper is still available. -/
theorem fits_grow (coherent : model.Coherent) (linked : model.Linked) {available : List String}
    {unit : CompilationUnit} (found : model.units.get? unit.qualifiedName = some unit)
    (leaves : Leaves model unit.qualifiedName depth)
    (deeper : ∀ name n, Leaves model name n → depth < n → name ∈ available) :
    Fits model depth (grow model.units available unit) := by
  -- Down the recursion of `grow`, which strikes out one name for each step down: `deeper` says
  -- that no name is struck out before the tree has passed its depth.
  induction available, unit using ClassTree.grow.induct generalizing depth with
  | case1 available unit ih =>
    rw [grow]
    have heirs : ∀ name ∈ Text.sorted unit.subclasses, ∃ tree,
        (if _ : name ∈ available then
          (model.units.get? name).map fun child => grow model.units (available.erase name) child
        else none) = some tree ∧ tree.name = name ∧ Fits model (depth + 1) tree := by
      intro name member
      obtain ⟨_,heir,place,written⟩ :=
        (linked.mem_iff _ unit found name).mp (Text.mem_sorted.mp member)
      have named := coherent.get?_units place
      have link : model.Extends name unit.qualifiedName :=
        ⟨⟨heir,place,written⟩,OrderedMap.mem_keys_of_get? found⟩
      have under := Leaves.under link leaves
      have there := deeper name (depth + 1) under (by omega)
      refine ⟨grow model.units (available.erase name) heir,?_,?_,?_⟩
      · rw [dif_pos there,place,Option.map_some]
      · rw [ClassTree.name,grow]
        exact named
      · apply ih name there heir (by rwa [named]) (by rwa [named])
        intro other n further long
        -- The name struck out stands at `depth + 1`, so what stands deeper still is another one.
        have apart : other ≠ name := by
          rintro rfl
          exact absurd (further.unique under) (by omega)
        exact (List.mem_erase_of_ne apart).mpr (deeper other n further (by omega))
    obtain ⟨names,below⟩ := filterMap_fits heirs
    exact .node found leaves names below

theorem Fits.leaves {tree : ClassTree CompilationUnit} (fits : Fits model depth tree) :
    Leaves model tree.name depth := by
  cases fits with
  | node _ leaves => exact leaves

theorem Fits.found {tree : ClassTree CompilationUnit} (fits : Fits model depth tree) :
    model.units.get? tree.name = some tree.unit := by
  cases fits with
  | node found => exact found

/-- What is listed of a tree: units of the model from which links lead to the root of the tree,
each with the number of its links to the outside. -/
theorem Fits.listed (linked : model.Linked) {tree : ClassTree CompilationUnit}
    (fits : Fits model depth tree) :
    ∀ entry ∈ flatten depth tree, model.units.get? entry.1.qualifiedName = some entry.1 ∧
      (∃ n : Nat, entry.2 = n ∧ depth ≤ n ∧ Leaves model entry.1.qualifiedName n) ∧
      ReflTransGen model.Extends entry.1.qualifiedName tree.name := by
  induction fits with
  | @node depth unit children found leaves names below ih =>
    intro entry member
    rw [flatten,List.mem_cons,flattenAll_eq,List.mem_flatMap] at member
    rcases member with rfl | ⟨child,inside,further⟩
    · exact ⟨found,⟨depth,rfl,le_rfl,leaves⟩,.refl⟩
    · obtain ⟨place,⟨n,same,long,under⟩,links⟩ := ih child inside entry further
      have heir : child.name ∈ unit.subclasses := by
        rw [← Text.mem_sorted,← names]
        exact List.mem_map_of_mem inside
      obtain ⟨_,other,at_,written⟩ := (linked.mem_iff _ unit found child.name).mp heir
      have link : model.Extends child.name unit.qualifiedName :=
        ⟨⟨other,at_,written⟩,OrderedMap.mem_keys_of_get? found⟩
      exact ⟨place,⟨n,same,by omega,under⟩,links.tail link⟩

theorem Fits.heirs_listed {tree : ClassTree CompilationUnit} (fits : Fits model depth tree)
    {parent heir : CompilationUnit} {n : Int} (listed : (parent,n) ∈ flatten depth tree)
    {name : String} (member : name ∈ parent.subclasses)
    (place : model.units.get? name = some heir) : (heir,n + 1) ∈ flatten depth tree := by
  induction fits with
  | @node depth unit children found leaves names below ih =>
    rw [flatten,List.mem_cons,flattenAll_eq,List.mem_flatMap] at listed ⊢
    rcases listed with same | ⟨child,inside,further⟩
    · cases same
      have given : name ∈ children.map ClassTree.name := names ▸ Text.mem_sorted.mpr member
      obtain ⟨child,inside,rfl⟩ := List.mem_map.mp given
      have unit : child.unit = heir := Option.some.inj ((below child inside).found.symm.trans place)
      refine .inr ⟨child,inside,?_⟩
      obtain ⟨own,others⟩ := child
      subst unit
      exact List.mem_cons_self
    · exact .inr ⟨child,inside,ih child inside further⟩

/-- Trees with different roots at one depth list different units. -/
theorem Fits.disjoint (linked : model.Linked) {first second : ClassTree CompilationUnit}
    (one : Fits model depth first) (two : Fits model depth second)
    (apart : first.name ≠ second.name) :
    List.Disjoint ((flatten depth first).map fun entry => entry.1.qualifiedName)
      ((flatten depth second).map fun entry => entry.1.qualifiedName) := by
  intro name left right
  obtain ⟨entry,listed,rfl⟩ := List.mem_map.mp left
  obtain ⟨other,again,same⟩ := List.mem_map.mp right
  obtain ⟨_,_,up⟩ := one.listed linked entry listed
  obtain ⟨_,_,again⟩ := two.listed linked other again
  exact apart (one.leaves.meet two.leaves up (same ▸ again))

theorem nodup_flattenAll (linked : model.Linked) {trees : List (ClassTree CompilationUnit)}
    (fits : ∀ tree ∈ trees, Fits model depth tree) (distinct : (trees.map ClassTree.name).Nodup)
    (each : ∀ tree ∈ trees, ((flatten depth tree).map fun entry => entry.1.qualifiedName).Nodup) :
    ((flattenAll depth trees).map fun entry => entry.1.qualifiedName).Nodup := by
  rw [flattenAll_eq,List.map_flatMap,List.nodup_flatMap]
  refine ⟨each,?_⟩
  apply (List.pairwise_map.mp distinct).imp_of_mem
  intro first second memberFirst memberSecond apart
  exact (fits first memberFirst).disjoint linked (fits second memberSecond) apart

theorem Fits.nodup (linked : model.Linked) {tree : ClassTree CompilationUnit}
    (fits : Fits model depth tree) :
    ((flatten depth tree).map fun entry => entry.1.qualifiedName).Nodup := by
  induction fits with
  | @node depth unit children found leaves names below ih =>
    rw [flatten,List.map_cons,List.nodup_cons]
    constructor
    · intro again
      obtain ⟨entry,listed,same⟩ := List.mem_map.mp again
      rw [flattenAll_eq,List.mem_flatMap] at listed
      obtain ⟨child,inside,further⟩ := listed
      obtain ⟨_,⟨n,_,long,under⟩,_⟩ := (below child inside).listed linked entry further
      rw [same] at under
      exact absurd (leaves.unique under) (by omega)
    · have distinct : (children.map ClassTree.name).Nodup := by
        rw [names,(Text.perm_sorted _).nodup_iff]
        exact linked.distinct _ unit found
      exact nodup_flattenAll linked below distinct ih

theorem Fits.nodes {tree : ClassTree CompilationUnit} (fits : Fits model depth tree) :
    ∀ node ∈ tree.nodes, ∃ n, Fits model n node := by
  induction fits with
  | @node depth unit children found leaves names below ih =>
    intro node member
    rw [ClassTree.nodes,List.mem_cons,nodesAll_eq,List.mem_flatMap] at member
    rcases member with rfl | ⟨child,inside,further⟩
    · exact ⟨depth,.node found leaves names below⟩
    · exact ih child inside node further

theorem mem_roots {unit : CompilationUnit} (coherent : model.Coherent) : unit ∈ model.roots ↔
    model.units.get? unit.qualifiedName = some unit ∧
      ∀ parent, unit.superclass = some parent → parent ∉ model.units.keys := by
  rw [roots,List.mem_filter,coherent.mem_units,isRoot_iff]

theorem fits_forest (coherent : model.Coherent) (linked : model.Linked) :
    ∀ tree ∈ model.forest, Fits model 0 tree := by
  intro tree member
  obtain ⟨root,inside,rfl⟩ := List.mem_map.mp member
  obtain ⟨found,outside⟩ := (mem_roots coherent).mp (Text.mem_sortedBy.mp inside)
  have top := Leaves.top found outside
  apply fits_grow coherent linked found top
  intro name n leaves long
  have apart : name ≠ root.qualifiedName := by
    rintro rfl
    exact absurd (leaves.unique top) (by omega)
  exact (List.mem_erase_of_ne apart).mpr leaves.mem_keys

theorem names_forest (model : Model) : model.forest.map ClassTree.name =
    (Text.sortedBy CompilationUnit.qualifiedName model.roots).map CompilationUnit.qualifiedName := by
  rw [forest,List.map_map]
  apply List.map_congr_left
  intro root _
  rw [Function.comp_apply,ClassTree.name,grow]
  rfl

theorem strict_forest (coherent : model.Coherent) :
    (model.forest.map ClassTree.name).Pairwise (· < ·) := by
  rw [names_forest]
  apply Text.strict_sortedBy
  exact coherent.nodup_qualifiedNames.sublist (List.filter_sublist.map _)

theorem Fits.strict (linked : model.Linked) {tree : ClassTree CompilationUnit}
    (fits : Fits model depth tree) : (tree.children.map ClassTree.name).Pairwise (· < ·) := by
  cases fits with
  | node found leaves names below =>
    rw [ClassTree.children,names]
    exact Text.strict_sorted (linked.distinct _ _ found)

/-- The node above a unit is that of its superclass. -/
theorem Fits.above (linked : model.Linked) {tree child : ClassTree CompilationUnit}
    (fits : Fits model depth tree) (member : child ∈ tree.children) :
    child.unit.superclass = some tree.name := by
  cases fits with
  | @node _ unit children found leaves names below =>
    have listed : child.name ∈ Text.sorted unit.subclasses := names ▸ List.mem_map_of_mem member
    obtain ⟨_,heir,place,written⟩ :=
      (linked.mem_iff _ unit found child.name).mp (Text.mem_sorted.mp listed)
    rw [(below child member).found] at place
    cases place
    exact written

theorem nodup_forest (coherent : model.Coherent) (linked : model.Linked) :
    ((flattenAll 0 model.forest).map fun entry => entry.1.qualifiedName).Nodup := by
  have fits := fits_forest coherent linked
  have distinct : (model.forest.map ClassTree.name).Nodup :=
    (strict_forest coherent).imp fun below => ne_of_lt below
  exact nodup_flattenAll linked fits distinct fun tree member => (fits tree member).nodup linked

theorem listed_of_leaves (coherent : model.Coherent) (linked : model.Linked) {name : String}
    (leaves : Leaves model name depth) {unit : CompilationUnit}
    (found : model.units.get? name = some unit) :
    (unit,(depth : Int)) ∈ flattenAll 0 model.forest := by
  rw [flattenAll_eq]
  -- Down from the root along the links, since a unit is listed below its superclass.
  induction leaves generalizing unit with
  | @top name root place outside =>
    rw [place] at found
    cases found
    have member : root ∈ model.roots :=
      (mem_roots coherent).mpr ⟨by rwa [coherent.get?_units place],outside⟩
    refine List.mem_flatMap.mpr ⟨_,List.mem_map_of_mem (Text.mem_sortedBy.mpr member),?_⟩
    rw [grow]
    exact List.mem_cons_self
  | @under name parent depth link above ih =>
    obtain ⟨⟨heir,place,written⟩,inside⟩ := link
    rw [place] at found
    cases found
    obtain ⟨up,known⟩ := OrderedMap.exists_of_mem_keys inside
    obtain ⟨tree,member,listed⟩ := List.mem_flatMap.mp (ih known)
    have apart : name ≠ parent := by
      rintro rfl
      exact above.not_cycle (.single ⟨⟨unit,place,written⟩,inside⟩)
    have among := (linked.mem_iff parent up known name).mpr ⟨apart,unit,place,written⟩
    have fits := fits_forest coherent linked tree member
    exact List.mem_flatMap.mpr ⟨tree,member,fits.heirs_listed listed among place⟩

theorem leaves_of_listed (coherent : model.Coherent) (linked : model.Linked)
    {entry : CompilationUnit × Int} (listed : entry ∈ flattenAll 0 model.forest) :
    model.units.get? entry.1.qualifiedName = some entry.1 ∧
      ∃ n : Nat, entry.2 = n ∧ Leaves model entry.1.qualifiedName n := by
  rw [flattenAll_eq] at listed
  obtain ⟨tree,member,inside⟩ := List.mem_flatMap.mp listed
  obtain ⟨found,⟨n,same,_,leaves⟩,_⟩ :=
    (fits_forest coherent linked tree member).listed linked entry inside
  exact ⟨found,n,same,leaves⟩

end Shape

theorem filter_eq_of_nodup {α β : Type} [DecidableEq β] {key : α → β} {items : List α}
    (distinct : (items.map key).Nodup) {item : α} (member : item ∈ items) :
    items.filter (fun other => key other = key item) = [item] := by
  induction items with
  | nil => cases member
  | cons first rest ih =>
    rw [List.map_cons,List.nodup_cons] at distinct
    rcases List.mem_cons.mp member with rfl | later
    · rw [List.filter_cons_of_pos (by simp),List.filter_eq_nil_iff.mpr]
      intro other inside same
      exact distinct.1 (List.mem_map.mpr ⟨other,inside,by simpa using same⟩)
    · have apart : key first ≠ key item := fun same =>
        distinct.1 (same ▸ List.mem_map_of_mem later)
      rw [List.filter_cons_of_neg (by simpa using apart),ih distinct.2 later]

/-- Of merged and resolved units the forest lists just those whose links leave the model, each
once and at the depth of its links, below its superclass and in the order of the names. The
others run into a cycle. -/
theorem inheritance_forest (extractions : List Extraction)
    (fresh : ∀ extraction ∈ extractions, extraction.unit.subclasses = []) :
    ∃ built resolved, ({} : Model).addAll extractions = .ok built ∧ built.resolve = .ok resolved ∧
      (∀ name unit, resolved.units.get? name = some unit →
        (∀ n, Leaves resolved name n →
          (flattenAll 0 resolved.forest).filter (fun entry => entry.1.qualifiedName = name) =
            [(unit,(n : Int))]) ∧
        ((∀ n, ¬ Leaves resolved name n) →
          ∀ entry ∈ flattenAll 0 resolved.forest, entry.1.qualifiedName ≠ name) ∧
        ((∀ n, ¬ Leaves resolved name n) ↔ ∃ turn, ReflTransGen resolved.Extends name turn ∧
          TransGen resolved.Extends turn turn)) ∧
      (∀ entry ∈ flattenAll 0 resolved.forest,
        resolved.units.get? entry.1.qualifiedName = some entry.1) ∧
      (flattenAll 0 resolved.forest).map Prod.fst =
        (nodesAll resolved.forest).map ClassTree.unit ∧
      (resolved.forest.map fun root => root.unit.qualifiedName).Pairwise (· < ·) ∧
      (∀ root ∈ resolved.forest, ∀ parent, root.unit.superclass = some parent →
        parent ∉ resolved.units.keys) ∧
      ∀ node ∈ nodesAll resolved.forest,
        (node.children.map fun child => child.unit.qualifiedName).Pairwise (· < ·) ∧
        ∀ child ∈ node.children, ∃ parent, child.unit.superclass = some parent ∧
          resolved.units.get? parent = some node.unit := by
  obtain ⟨built,run,grown⟩ := @addAll_open {} rfl extractions
  have sound := (grown.reachable .empty).coherent
  have bare : ∀ unit ∈ built.units.values, unit.subclasses = [] := by
    intro unit member
    rcases grown.origin unit member with known | ⟨extraction,inside,rfl⟩
    · cases known
    · exact fresh extraction inside
  have coherent := sound.related
  have linked := linked_related sound bare
  refine ⟨built,built.related,run,resolve_open grown.isOpen,?_,?_,ClassTree.units_flattenAll 0 _,
    strict_forest coherent,?_,?_⟩
  · intro name unit found
    refine ⟨?_,?_,stays_iff_cycle (OrderedMap.mem_keys_of_get? found)⟩
    · intro n leaves
      have listed := listed_of_leaves coherent linked leaves found
      have only := filter_eq_of_nodup (nodup_forest coherent linked) listed
      rwa [coherent.get?_units found] at only
    · rintro stays entry listed rfl
      obtain ⟨_,n,_,leaves⟩ := leaves_of_listed coherent linked listed
      exact stays n leaves
  · intro entry listed
    exact (leaves_of_listed coherent linked listed).1
  · intro root member
    obtain ⟨unit,inside,rfl⟩ := List.mem_map.mp member
    rw [grow]
    exact ((mem_roots coherent).mp (Text.mem_sortedBy.mp inside)).2
  · intro node member
    rw [nodesAll_eq] at member
    obtain ⟨tree,top,inside⟩ := List.mem_flatMap.mp member
    obtain ⟨n,fits⟩ := (fits_forest coherent linked tree top).nodes node inside
    refine ⟨fits.strict linked,?_⟩
    intro child below
    exact ⟨node.name,fits.above linked below,fits.found⟩

/-- A unit below another one is listed at depth one, and one that extends itself is not listed. -/
theorem inheritance_forest_loop :
    ∃ resolved : Model,
      (({} : Model).addAll [
          {unit := {name := "Loop",package := "p",file := "Loop.java",superclass := some "Loop"}},
          {unit := {name := "Low",package := "p",file := "Low.java",superclass := some "High"}},
          {unit := {name := "High",package := "p",file := "High.java"}}]).bind resolve =
        .ok resolved ∧
      (∃ unit, (flattenAll 0 resolved.forest).filter
        (fun entry => entry.1.qualifiedName = "p.Low") = [(unit,1)]) ∧
      ∀ entry ∈ flattenAll 0 resolved.forest, entry.1.qualifiedName ≠ "p.Loop" := by
  obtain ⟨built,resolved,run,done,each,_⟩ := inheritance_forest [
    {unit := {name := "Loop",package := "p",file := "Loop.java",superclass := some "Loop"}},
    {unit := {name := "Low",package := "p",file := "Low.java",superclass := some "High"}},
    {unit := {name := "High",package := "p",file := "High.java"}}] (by decide)
  refine ⟨resolved,by rw [run]; exact done,?_,?_⟩
  all_goals
    cases run
    cases done
  · refine ⟨_,(each "p.Low" _ rfl).1 1 (.under ⟨⟨_,rfl,rfl⟩,by decide⟩ (.top rfl ?_))⟩
    intro parent written
    cases written
  · have loop := ((each "p.Loop" _ rfl).2.2).mpr
      ⟨"p.Loop",.refl,.single ⟨⟨_,rfl,rfl⟩,by decide⟩⟩
    exact (each "p.Loop" _ rfl).2.1 loop

end Model

end JavaAtlas
