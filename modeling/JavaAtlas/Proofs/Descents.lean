import JavaAtlas.Loose.Forest
import JavaAtlas.Proofs.Enrolment
import JavaAtlas.Proofs.Forest

/-! The inheritance forest of a model that was read, whose links may be any: cycles, strangers,
units below several others. A tree grows from a unit to its heirs as long as their names do not lie
on the way already; the names on a way are keys of the model, so every way has an end. -/
namespace JavaAtlas

namespace Loose
open ClassTree (nodes nodesAll)
open Relation (ReflTransGen)

namespace Model

/-- A step down: from a unit, with the names on the way to it, to one that it names as a subclass
and whose name does not lie on the way. -/
def Descends (model : Model) (upper lower : CompilationUnit × List String) : Prop :=
  ∃ name, .str name ∈ upper.1.subclasses ∧ model.units.get? name = some lower.1 ∧
    name ∉ upper.2 ∧ lower.2 = name :: upper.2

variable {model : Model}

theorem wellFounded_descends (model : Model) : WellFounded (flip model.Descends) := by
  let left (way : List String) := model.units.keys.filter (· ∉ way)
  let measured (state : CompilationUnit × List String) := (left state.2).length
  refine Subrelation.wf (fun {lower upper} step => ?_) (InvImage.wf measured wellFounded_lt)
  obtain ⟨name,_,found,fresh,way⟩ := step
  have narrower : left lower.2 = (left upper.2).filter (· ≠ name) := by
    rw [way,List.filter_filter]
    simp [left]
  change (left lower.2).length < (left upper.2).length
  rw [narrower,List.length_filter_lt_length_iff_exists]
  exact ⟨name,by simp [left,OrderedMap.mem_keys_of_get? found,fresh],by simp⟩

theorem ways_bounded {root : CompilationUnit} {state : CompilationUnit × List String}
    (known : root.qualifiedName ∈ model.units.keys)
    (reached : ReflTransGen model.Descends (root,[root.qualifiedName]) state) :
    state.2.Nodup ∧ state.2 ⊆ model.units.keys := by
  induction reached with
  | refl => exact ⟨List.nodup_singleton _,List.cons_subset.mpr ⟨known,List.nil_subset _⟩⟩
  | tail _ step ih =>
    obtain ⟨name,_,found,fresh,way⟩ := step
    rw [way]
    exact ⟨List.nodup_cons.mpr ⟨fresh,ih.1⟩,
      List.cons_subset.mpr ⟨OrderedMap.mem_keys_of_get? found,ih.2⟩⟩

/-- What makes the growth of a forest fail: a superclass that cannot be a name, or a subclass that
is no text. -/
def Irregular (model : Model) : Prop :=
  ∃ unit ∈ model.units.values, (∃ mismatch, unit.superclass.asKey = .error mismatch) ∨
    ∃ name ∈ unit.subclasses, name.text? = none

/-- The names to which a way can go on: the keys of the model that do not lie on it. -/
structure Free (model : Model) (way available : List String) : Prop where
  distinct : available.Nodup
  mem_iff : ∀ name, name ∈ available ↔ name ∈ model.units.keys ∧ name ∉ way

theorem free_nil (model : Model) : model.Free [] model.units.keys :=
  ⟨model.units.distinct,fun _ => by simp⟩

theorem Free.erase {way available : List String} (free : model.Free way available) (name : String) :
    model.Free (name :: way) (available.erase name) := by
  refine ⟨free.distinct.erase name,fun other => ?_⟩
  rw [free.distinct.mem_erase_iff,free.mem_iff,List.mem_cons,not_or]
  exact and_left_comm

/-- A tree that has grown as far as it can, its children in the order of their names. -/
inductive Grown (model : Model) : List String → ClassTree CompilationUnit → Prop
  | node {above : List String} {unit : CompilationUnit}
      {children : List (ClassTree CompilationUnit)}
      (descends : ∀ lower, model.Descends (unit,unit.qualifiedName :: above) lower ↔
        ∃ child ∈ children,
          lower = (child.unit,child.unit.qualifiedName :: unit.qualifiedName :: above))
      (ordered : (children.map fun child => child.unit.qualifiedName).Pairwise (· ≤ ·))
      (below : ∀ child ∈ children, Grown model (unit.qualifiedName :: above) child) :
      Grown model above (.node unit children)

/-- What a name among the subclasses of a unit comes to: the tree of the unit it names, if that
does not lie on the way, and nothing otherwise. -/
structure Sprouts (model : Model) (available : List String) (way : List String) (name : Json)
    (result : Option (ClassTree CompilationUnit)) : Prop where
  named : ∀ tree ∈ result, name.text? = some tree.unit.qualifiedName ∧
    tree.unit.qualifiedName ∈ available ∧
    model.units.get? tree.unit.qualifiedName = some tree.unit ∧ model.Grown way tree
  complete : ∀ {text unit}, name.text? = some text → text ∈ available →
    model.units.get? text = some unit → ∃ tree ∈ result, tree.unit = unit

section Sprouting
variable {available way : List String}

theorem sprouts_some {text : String} {unit : CompilationUnit} {tree : ClassTree CompilationUnit}
    (fresh : text ∈ available) (found : model.units.get? text = some unit)
    (named : unit.qualifiedName = text) (same : tree.unit = unit) (grown : model.Grown way tree) :
    model.Sprouts available way (.str text) (some tree) := by
  subst same
  subst named
  constructor
  · rintro _ ⟨⟩
    exact ⟨rfl,fresh,found,grown⟩
  · rintro _ other ⟨⟩ _ there
    exact ⟨tree,rfl,Option.some.inj (found.symm.trans there)⟩

theorem sprouts_none {name : Json} (absent : ∀ text, name.text? = some text →
    text ∈ available → model.units.get? text = none) :
    model.Sprouts available way name none :=
  ⟨nofun,fun named fresh found => nomatch found.symm.trans (absent _ named fresh)⟩

theorem sublist_of_sprouts {names : List Json}
    {results : List (Option (ClassTree CompilationUnit))}
    (sprouts : List.Forall₂ (model.Sprouts available way) names results) :
    ((results.filterMap id).map fun tree => tree.unit.qualifiedName).Sublist
      (names.filterMap Json.text?) := by
  induction sprouts with
  | nil => exact .slnil
  | @cons name result names results first _ ih =>
    cases result with
    | none =>
      exact ih.trans ((List.sublist_cons_self name names).filterMap Json.text?)
    | some tree =>
      rw [List.filterMap_cons_some (first.named tree rfl).1]
      exact ih.cons_cons _

theorem grown_node {above : List String} {unit : CompilationUnit} {names : List Json}
    {results : List (Option (ClassTree CompilationUnit))}
    (keyed : ∀ {name other}, model.units.get? name = some other → other.qualifiedName = name)
    (free : model.Free (unit.qualifiedName :: above) available)
    (same : names.Perm unit.subclasses) (ordered : (names.filterMap Json.text?).Pairwise (· ≤ ·))
    (sprouts : List.Forall₂ (model.Sprouts available (unit.qualifiedName :: above)) names results) :
    model.Grown above (.node unit (results.filterMap id)) := by
  have grownFrom {tree : ClassTree CompilationUnit} (inside : tree ∈ results.filterMap id) :
      ∃ name ∈ names, model.Sprouts available (unit.qualifiedName :: above) name (some tree) := by
    obtain ⟨_,there,rfl⟩ := List.mem_filterMap.mp inside
    exact exists_of_mem_right sprouts there
  refine .node (fun lower => ⟨?_,?_⟩) (ordered.sublist (sublist_of_sprouts sprouts)) ?_
  · rintro ⟨name,inside,found,fresh,way⟩
    obtain ⟨result,there,fits⟩ := exists_of_mem_left sprouts (same.mem_iff.mpr inside)
    have available := (free.mem_iff name).mpr ⟨OrderedMap.mem_keys_of_get? found,fresh⟩
    obtain ⟨tree,held,reached⟩ := fits.complete rfl available found
    refine ⟨tree,List.mem_filterMap.mpr ⟨result,there,held⟩,Prod.ext reached.symm ?_⟩
    rw [way,reached,keyed found]
  · rintro ⟨child,inside,rfl⟩
    obtain ⟨name,there,fits⟩ := grownFrom inside
    obtain ⟨text,available,found,_⟩ := fits.named child rfl
    have written := same.mem_iff.mp (Json.text?_eq_some.mp text ▸ there)
    exact ⟨_,written,found,((free.mem_iff _).mp available).2,rfl⟩
  · intro child inside
    obtain ⟨_,_,fits⟩ := grownFrom inside
    exact (fits.named child rfl).2.2.2

end Sprouting

theorem grow_yields
    (keyed : ∀ {name other}, model.units.get? name = some other → other.qualifiedName = name)
    {available above : List String} {unit : CompilationUnit}
    (free : model.Free (unit.qualifiedName :: above) available)
    (member : unit ∈ model.units.values) :
    Yields (fun _ => model.Irregular) (fun tree => tree.unit = unit ∧ model.Grown above tree)
      (grow model.units available unit) := by
  induction available, unit using grow.induct generalizing above with
  | case1 available unit ih =>
    rw [grow]
    have excused : (∃ name ∈ unit.subclasses, name.text? = none) → model.Irregular :=
      fun odd => ⟨unit,member,.inr odd⟩
    refine ((Json.sorted_yields unit.subclasses).weaken fun _ => excused).bind ?_
    rintro names ⟨same,ordered⟩
    refine Yields.bind (Yields.filterMapM fun name inside =>
      (?sprouts : Yields _ (model.Sprouts available (unit.qualifiedName :: above) name) _)) ?grown
    case grown =>
      rintro children ⟨results,sprouts,rfl⟩
      exact ⟨rfl,grown_node keyed free same ordered sprouts⟩
    case sprouts =>
      cases name with
      | arr | obj => exact excused ⟨_,same.mem_iff.mp inside,rfl⟩
      | null | bool | int | float => exact sprouts_none (by rintro _ ⟨⟩)
      | str text =>
        change Yields _ _ (if _ : text ∈ available then _ else _)
        split
        · next fresh =>
          split
          · next child found =>
            have named := keyed found
            have stored : child ∈ model.units.values :=
              OrderedMap.mem_values.mpr ⟨text,OrderedMap.get?_eq_some.mp found⟩
            have longer : model.Free (child.qualifiedName :: unit.qualifiedName :: above)
                (available.erase text) := by
              rw [named]
              exact free.erase text
            refine (ih text fresh child longer stored).bind ?_
            rintro tree ⟨same,grown⟩
            exact sprouts_some fresh found named same grown
          · next missing =>
            exact sprouts_none fun other named _ => Option.some.inj named ▸ missing
        · next taken =>
          exact sprouts_none fun other named there => absurd (Option.some.inj named ▸ there) taken

mutual
/-- The units of a tree, each with the names on the way to it from the root, its own first. -/
def ways (above : List String) :
    ClassTree CompilationUnit → List (CompilationUnit × List String)
  | .node unit children =>
    (unit,unit.qualifiedName :: above) :: waysAll (unit.qualifiedName :: above) children

def waysAll (above : List String) :
    List (ClassTree CompilationUnit) → List (CompilationUnit × List String)
  | [] => []
  | tree :: rest => ways above tree ++ waysAll above rest
end

theorem waysAll_eq (above : List String) (trees : List (ClassTree CompilationUnit)) :
    waysAll above trees = trees.flatMap (ways above) := by
  induction trees with
  | nil => rfl
  | cons tree rest ih => rw [waysAll,ih,List.flatMap_cons]

/-- The ways through a grown tree are those that lead down from its root. -/
theorem Grown.mem_ways {above : List String} {tree : ClassTree CompilationUnit}
    (grown : model.Grown above tree) (state : CompilationUnit × List String) :
    state ∈ ways above tree ↔
      ReflTransGen model.Descends (tree.unit,tree.unit.qualifiedName :: above) state := by
  induction grown with
  | @node above unit children descends _ _ ih =>
    rw [ways,waysAll_eq,List.mem_cons,List.mem_flatMap]
    constructor
    · rintro (rfl | ⟨child,inside,further⟩)
      · exact .refl
      · exact .head ((descends _).mpr ⟨child,inside,rfl⟩) ((ih child inside).mp further)
    · intro reached
      rcases reached.cases_head with rfl | ⟨next,step,further⟩
      · exact .inl rfl
      · obtain ⟨child,inside,rfl⟩ := (descends next).mp step
        exact .inr ⟨child,inside,(ih child inside).mpr further⟩

theorem Grown.ordered {above : List String} {tree : ClassTree CompilationUnit}
    (grown : model.Grown above tree) : ∀ node ∈ tree.nodes,
      (node.children.map fun child => child.unit.qualifiedName).Pairwise (· ≤ ·) := by
  induction grown with
  | @node above unit children _ ordered _ ih =>
    rw [nodes,ClassTree.nodesAll_eq,List.forall_mem_cons]
    refine ⟨ordered,fun node inside => ?_⟩
    obtain ⟨child,member,within⟩ := List.mem_flatMap.mp inside
    exact ih child member node within

theorem Grown.stored {above : List String} {tree : ClassTree CompilationUnit}
    (grown : model.Grown above tree) (member : tree.unit ∈ model.units.values) :
    ∀ node ∈ tree.nodes, node.unit ∈ model.units.values := by
  induction grown with
  | @node above unit children descends _ _ ih =>
    rw [nodes,ClassTree.nodesAll_eq,List.forall_mem_cons]
    refine ⟨member,fun node inside => ?_⟩
    obtain ⟨child,there,within⟩ := List.mem_flatMap.mp inside
    obtain ⟨name,_,found,_⟩ := (descends _).mpr ⟨child,there,rfl⟩
    have stored : child.unit ∈ model.units.values :=
      OrderedMap.mem_values.mpr ⟨name,OrderedMap.get?_eq_some.mp found⟩
    exact ih child there stored node within

theorem irregular_of_isRoot {unit : CompilationUnit} (member : unit ∈ model.units.values)
    {mismatch : Json.Mismatch} (failed : model.isRoot unit = .error mismatch) :
    model.Irregular := by
  refine ⟨unit,member,.inl ?_⟩
  cases given : unit.superclass with
  | arr | obj => exact ⟨_,rfl⟩
  | _ =>
    rw [isRoot,given] at failed
    nomatch failed

theorem forest_yields {units : List CompilationUnit} (enrolled : Enrolled units model) :
    Yields (fun _ => model.Irregular)
      (fun trees => (∀ unit, (∃ tree ∈ trees, tree.unit = unit) ↔
          unit ∈ model.units.values ∧ model.isRoot unit = .ok true) ∧
        ∀ tree ∈ trees, model.Grown [] tree) model.forest := by
  have rooted : ∀ unit ∈ model.units.values, ∀ mismatch,
      model.isRoot unit = .error mismatch → model.Irregular :=
    fun unit member _ => irregular_of_isRoot member
  refine (Yields.filterM rooted).bind fun roots members => ?_
  have grown : ∀ root ∈ Text.sortedBy CompilationUnit.qualifiedName roots,
      Yields (fun _ => model.Irregular) (fun tree => tree.unit = root ∧ model.Grown [] tree)
        (grow model.units (model.units.keys.erase root.qualifiedName) root) := by
    intro root there
    have member := ((members root).mp (Text.mem_sortedBy.mp there)).1
    exact grow_yields (fun found => (enrolled.kept found).2) ((free_nil model).erase _) member
  refine (Yields.mapM grown).mono fun trees all => ⟨fun unit => ?_,fun tree inside => ?_⟩
  · rw [← members]
    constructor
    · rintro ⟨tree,inside,rfl⟩
      obtain ⟨root,there,same,_⟩ := exists_of_mem_right all inside
      exact same ▸ Text.mem_sortedBy.mp there
    · intro there
      obtain ⟨tree,inside,same,_⟩ := exists_of_mem_left all (Text.mem_sortedBy.mpr there)
      exact ⟨tree,inside,same⟩
  · obtain ⟨_,_,_,fits⟩ := exists_of_mem_right all inside
    exact fits

/-- The forest of a model that was read comes to an end, whatever its links are: no way down goes
on for ever, and the names on a way from a unit are distinct keys, so there are no more of them
than units. It consists of all ways down from the roots, with children in the order of their names;
only a superclass or a subclass that is no name can make it fail. -/
theorem forest_ends {value : Json} {model : Model} (read : ofJson value = .ok model) :
    WellFounded (flip model.Descends) ∧
      (∀ root ∈ model.units.values, ∀ state,
        ReflTransGen model.Descends (root,[root.qualifiedName]) state →
          state.2.Nodup ∧ state.2 ⊆ model.units.keys ∧ state.2.length ≤ model.units.size) ∧
      ((∃ trees, model.forest = .ok trees ∧
          (∀ unit, (∃ tree ∈ trees, tree.unit = unit) ↔
            unit ∈ model.units.values ∧ model.isRoot unit = .ok true) ∧
          ∀ tree ∈ trees,
            (∀ state, state ∈ ways [] tree ↔
              ReflTransGen model.Descends (tree.unit,[tree.unit.qualifiedName]) state) ∧
            (∀ state ∈ ways [] tree,
              state.2.Nodup ∧ state.2 ⊆ model.units.keys ∧ state.2.length ≤ model.units.size) ∧
            ∀ node ∈ tree.nodes,
              (node.children.map fun child => child.unit.qualifiedName).Pairwise (· ≤ ·)) ∨
        ∃ mismatch, model.forest = .error mismatch ∧ model.Irregular) := by
  obtain ⟨units,_,enrolled⟩ := enrolled_of_read read
  have bounded : ∀ root ∈ model.units.values, ∀ state,
      ReflTransGen model.Descends (root,[root.qualifiedName]) state →
        state.2.Nodup ∧ state.2 ⊆ model.units.keys ∧ state.2.length ≤ model.units.size := by
    intro root member state reached
    have known := enrolled.named root (enrolled.mem_of_mem_values member)
    obtain ⟨distinct,inside⟩ := ways_bounded known reached
    have short := List.Nodup.length_le_of_subset distinct inside
    exact ⟨distinct,inside,by rwa [OrderedMap.keys,List.length_map] at short⟩
  refine ⟨wellFounded_descends model,bounded,?_⟩
  have yields := forest_yields enrolled
  cases outcome : model.forest with
  | error mismatch =>
    rw [outcome] at yields
    exact .inr ⟨mismatch,rfl,yields⟩
  | ok trees =>
    rw [outcome] at yields
    obtain ⟨roots,grown⟩ := yields
    refine .inl ⟨trees,rfl,roots,fun tree inside => ⟨(grown tree inside).mem_ways,?_,?_⟩⟩
    · intro state on
      have member := ((roots tree.unit).mp ⟨tree,inside,rfl⟩).1
      exact bounded tree.unit member state (((grown tree inside).mem_ways state).mp on)
    · exact (grown tree inside).ordered

/-- Two units, each named as a subclass of the other one and of itself. -/
def circle : Json :=
  .obj [("units",.arr [
    .obj [("name",.str "A"),("package",.str "p"),("file",.str "A.java"),
      ("subclasses",Json.strings ["p.B","p.A","p.Gone"])],
    .obj [("name",.str "B"),("package",.str "p"),("file",.str "B.java"),("superclass",.str "p.A"),
      ("subclasses",Json.strings ["p.A","p.B"])]])]

theorem forest_ends_circle : ∃ model trees, ofJson circle = .ok model ∧
    model.forest = .ok trees ∧ ∀ tree ∈ trees, ∀ state ∈ ways [] tree, state.2.length ≤ 2 := by
  obtain ⟨model,read,two,regular⟩ : ∃ model, ofJson circle = .ok model ∧ model.units.size = 2 ∧
      ∀ unit ∈ model.units.values, (∃ key, unit.superclass.asKey = .ok key) ∧
        ∀ name ∈ unit.subclasses, name.text?.isSome := by
    refine ⟨_,rfl,rfl,?_⟩
    exact List.forall_mem_cons.mpr ⟨⟨⟨_,rfl⟩,by decide⟩,
      List.forall_mem_cons.mpr ⟨⟨⟨_,rfl⟩,by decide⟩,nofun⟩⟩
  obtain ⟨_,_,⟨trees,grown,_,each⟩ | ⟨_,_,unit,member,odd⟩⟩ := forest_ends read
  · refine ⟨model,trees,read,grown,fun tree inside state on => ?_⟩
    exact two ▸ ((each tree inside).2.1 state on).2.2
  · obtain ⟨⟨key,hashed⟩,texts⟩ := regular unit member
    rcases odd with ⟨_,failed⟩ | ⟨name,there,other⟩
    · exact nomatch hashed.symm.trans failed
    · exact absurd (texts name there) (by rw [other]; nofun)

end Model

end Loose

end JavaAtlas
