import JavaAtlas.Proofs.Relations
import Mathlib.Data.Fintype.Pigeonhole

/-! Superclass links. Followed upwards they leave the model after some steps, or they run into a
cycle; there is no third way, since the units are finitely many. -/
namespace JavaAtlas.Model
open Relation (ReflTransGen TransGen)
open Relator (RightUnique)

/-- A superclass link that stays in the model. -/
structure Extends (model : Model) (child parent : String) : Prop where
  link : ∃ unit, model.units.get? child = some unit ∧ unit.superclass = some parent
  inside : parent ∈ model.units.keys

/-- The links from a unit leave the model after so many steps to units. -/
inductive Leaves (model : Model) : String → Nat → Prop
  | top {name : String} {unit : CompilationUnit} (found : model.units.get? name = some unit)
      (outside : ∀ parent, unit.superclass = some parent → parent ∉ model.units.keys) :
      Leaves model name 0
  | under {name parent : String} {depth : Nat} (link : model.Extends name parent)
      (above : Leaves model parent depth) : Leaves model name (depth + 1)

section Upwards
variable {model : Model} {name other : String} {depth : Nat}

theorem isRoot_iff {unit : CompilationUnit} : model.isRoot unit = true ↔
    ∀ parent, unit.superclass = some parent → parent ∉ model.units.keys := by
  unfold isRoot
  split
  · next unknown => simp [unknown]
  · next parent written =>
    simp only [written,Option.some.injEq,forall_eq',Bool.not_eq_true',← Bool.not_eq_true,
      OrderedMap.contains_iff]

theorem extends_rightUnique (model : Model) : RightUnique model.Extends := by
  rintro child first second ⟨⟨unit,found,written⟩,_⟩ ⟨⟨again,same,other⟩,_⟩
  rw [found] at same
  cases same
  rw [written] at other
  exact Option.some.inj other

theorem Extends.not_outside {unit : CompilationUnit} (link : model.Extends name other)
    (found : model.units.get? name = some unit)
    (outside : ∀ parent, unit.superclass = some parent → parent ∉ model.units.keys) : False := by
  obtain ⟨⟨own,same,written⟩,inside⟩ := link
  rw [found] at same
  cases same
  exact outside other written inside

theorem Leaves.unique (leaves : Leaves model name depth) {another : Nat}
    (again : Leaves model name another) : depth = another := by
  induction leaves generalizing another with
  | top found outside =>
    cases again with
    | top => rfl
    | under link => exact (link.not_outside found outside).elim
  | under link _ ih =>
    cases again with
    | top found outside => exact (link.not_outside found outside).elim
    | under second above =>
      cases extends_rightUnique model link second
      rw [ih above]

theorem Leaves.of_extends (leaves : Leaves model name depth) (link : model.Extends name other) :
    ∃ less, Leaves model other less ∧ depth = less + 1 := by
  cases leaves with
  | top found outside => exact (link.not_outside found outside).elim
  | under first above =>
    cases extends_rightUnique model link first
    exact ⟨_,above,rfl⟩

theorem Leaves.of_transGen (leaves : Leaves model name depth)
    (links : TransGen model.Extends name other) :
    ∃ less, Leaves model other less ∧ less < depth := by
  induction links with
  | single link =>
    obtain ⟨less,above,same⟩ := leaves.of_extends link
    exact ⟨less,above,by omega⟩
  | tail _ link ih =>
    obtain ⟨middle,between,shorter⟩ := ih
    obtain ⟨less,above,same⟩ := between.of_extends link
    exact ⟨less,above,by omega⟩

theorem Leaves.of_reflTransGen (leaves : Leaves model name depth)
    (links : ReflTransGen model.Extends name other) :
    ∃ less, Leaves model other less ∧ less ≤ depth := by
  rcases Relation.reflTransGen_iff_eq_or_transGen.mp links with rfl | further
  · exact ⟨depth,leaves,le_rfl⟩
  · obtain ⟨less,above,shorter⟩ := leaves.of_transGen further
    exact ⟨less,above,shorter.le⟩

theorem Leaves.not_cycle (leaves : Leaves model name depth) :
    ¬ TransGen model.Extends name name := by
  intro cycle
  obtain ⟨less,again,shorter⟩ := leaves.of_transGen cycle
  exact absurd (leaves.unique again) (by omega)

theorem Leaves.mem_keys (leaves : Leaves model name depth) : name ∈ model.units.keys := by
  cases leaves with
  | top found => exact OrderedMap.mem_keys_of_get? found
  | under link =>
    obtain ⟨⟨unit,found,_⟩,_⟩ := link
    exact OrderedMap.mem_keys_of_get? found

/-- Two units as many steps from the outside are the same if one unit leads to both. -/
theorem Leaves.meet {start : String} (leaves : Leaves model name depth)
    (again : Leaves model other depth) (one : ReflTransGen model.Extends start name)
    (two : ReflTransGen model.Extends start other) : name = other := by
  have apart {first second : String} (low : Leaves model first depth)
      (high : Leaves model second depth) (links : ReflTransGen model.Extends first second) :
      first = second := by
    rcases Relation.reflTransGen_iff_eq_or_transGen.mp links with same | further
    · exact same.symm
    · obtain ⟨less,above,shorter⟩ := low.of_transGen further
      exact absurd (high.unique above) (by omega)
  rcases ReflTransGen.total_of_right_unique (extends_rightUnique model) one two with up | down
  · exact apart leaves again up
  · exact (apart again leaves down).symm

theorem exists_extends (member : name ∈ model.units.keys) (stays : ∀ n, ¬ Leaves model name n) :
    ∃ parent, model.Extends name parent ∧ ∀ n, ¬ Leaves model parent n := by
  obtain ⟨unit,found⟩ := OrderedMap.exists_of_mem_keys member
  by_contra none
  apply stays 0
  apply Leaves.top found
  intro parent written inside
  apply none
  have link : model.Extends name parent := ⟨⟨unit,found,written⟩,inside⟩
  exact ⟨parent,link,fun n above => stays (n + 1) (.under link above)⟩

/-- Links that never leave the model lead into a cycle. -/
theorem exists_cycle (member : name ∈ model.units.keys) (stays : ∀ n, ¬ Leaves model name n) :
    ∃ turn, ReflTransGen model.Extends name turn ∧ TransGen model.Extends turn turn := by
  have next (unit : {key // key ∈ model.units.keys ∧ ∀ n, ¬ Leaves model key n}) :
      ∃ above : {key // key ∈ model.units.keys ∧ ∀ n, ¬ Leaves model key n},
        model.Extends unit.1 above.1 := by
    obtain ⟨parent,link,further⟩ := exists_extends unit.2.1 unit.2.2
    exact ⟨⟨parent,link.inside,further⟩,link⟩
  choose step link using next
  -- A climb that never ends passes one of the finitely many units twice.
  let path (n : Nat) := step^[n] ⟨name,member,stays⟩
  have climbs (n : Nat) : model.Extends (path n).1 (path (n + 1)).1 := by
    simp only [path,Function.iterate_succ_apply']
    exact link _
  have between {first last : Nat} (below : first < last) :
      TransGen model.Extends (path first).1 (path last).1 := by
    induction last, below using Nat.le_induction with
    | base => exact .single (climbs first)
    | succ last _ ih => exact ih.tail (climbs last)
  have upTo (n : Nat) : ReflTransGen model.Extends name (path n).1 := by
    cases n with
    | zero => exact .refl
    | succ n => exact (between n.succ_pos).to_reflTransGen
  let place (n : Nat) : {key // key ∈ model.units.keys} := ⟨(path n).1,(path n).2.1⟩
  obtain ⟨first,last,apart,same⟩ := Finite.exists_ne_map_eq_of_infinite place
  have again : (path first).1 = (path last).1 := Subtype.mk.inj same
  rcases lt_or_gt_of_ne apart with before | after
  · have cycle := between before
    rw [← again] at cycle
    exact ⟨(path first).1,upTo first,cycle⟩
  · have cycle := between after
    rw [again] at cycle
    exact ⟨(path last).1,upTo last,cycle⟩

theorem stays_iff_cycle (member : name ∈ model.units.keys) : (∀ n, ¬ Leaves model name n) ↔
    ∃ turn, ReflTransGen model.Extends name turn ∧ TransGen model.Extends turn turn := by
  refine ⟨exists_cycle member,?_⟩
  rintro ⟨turn,links,cycle⟩ n leaves
  obtain ⟨less,above,_⟩ := leaves.of_reflTransGen links
  exact above.not_cycle cycle

end Upwards

/-- Every unit lists those that have it as superclass, each once, and never itself. -/
structure Linked (model : Model) : Prop where
  distinct : ∀ name unit, model.units.get? name = some unit → unit.subclasses.Nodup
  mem_iff : ∀ name unit, model.units.get? name = some unit → ∀ child,
    child ∈ unit.subclasses ↔ child ≠ name ∧
      ∃ heir, model.units.get? child = some heir ∧ heir.superclass = some name

section Related
variable {model : Model} {name : String} {unit : CompilationUnit}

/-- What a unit that came without subclasses says once references are resolved. -/
theorem settled_related (coherent : model.Coherent)
    (fresh : ∀ unit ∈ model.units.values, unit.subclasses = [])
    (found : model.related.units.get? name = some unit) :
    name ∈ model.units.keys ∧ unit.superclass = model.superclassOf name ∧
      unit.subclasses = model.heirs model.units.keys name := by
  rw [get?_related coherent] at found
  obtain ⟨old,known,rfl⟩ := Option.map_eq_some_iff.mp found
  have member := OrderedMap.mem_keys_of_get? known
  have empty : old.subclasses = [] :=
    fresh old (OrderedMap.mem_values.mpr ⟨name,OrderedMap.get?_eq_some.mp known⟩)
  refine ⟨member,?_,?_⟩
  · rw [rewritten,if_pos member]
  · simp [rewritten,empty]

theorem linked_related (coherent : model.Coherent)
    (fresh : ∀ unit ∈ model.units.values, unit.subclasses = []) : model.related.Linked := by
  constructor
  · intro name unit found
    rw [(settled_related coherent fresh found).2.2]
    exact model.units.nodup_keys.filter _
  · intro name unit found child
    rw [(settled_related coherent fresh found).2.2,heirs,List.mem_filter,Bool.and_eq_true,
      bne_iff_ne,beq_iff_eq]
    constructor
    · rintro ⟨member,apart,superclass⟩
      obtain ⟨heir,place⟩ := OrderedMap.exists_of_mem_keys (keys_related coherent ▸ member)
      exact ⟨apart,heir,place,(settled_related coherent fresh place).2.1.trans superclass⟩
    · rintro ⟨apart,heir,place,superclass⟩
      obtain ⟨member,same,_⟩ := settled_related coherent fresh place
      exact ⟨member,apart,same.symm.trans superclass⟩

/-- Subclasses stand in the order of the units. -/
theorem sublist_subclasses (coherent : model.Coherent)
    (fresh : ∀ unit ∈ model.units.values, unit.subclasses = [])
    (found : model.related.units.get? name = some unit) :
    unit.subclasses.Sublist model.units.keys := by
  rw [(settled_related coherent fresh found).2.2]
  exact List.filter_sublist

/-- The links between two units, told by the units themselves. -/
theorem Linked.mem_subclasses (linked : model.Linked) (coherent : model.Coherent)
    {parent child : CompilationUnit} (above : parent ∈ model.units.values)
    (below : child ∈ model.units.values) :
    child.qualifiedName ∈ parent.subclasses ↔
      parent ≠ child ∧ child.superclass = some parent.qualifiedName := by
  have place := coherent.mem_units.mp above
  have inside := coherent.mem_units.mp below
  rw [linked.mem_iff _ parent place]
  constructor
  · rintro ⟨apart,heir,found,superclass⟩
    rw [inside] at found
    cases found
    refine ⟨?_,superclass⟩
    rintro rfl
    exact apart rfl
  · rintro ⟨apart,superclass⟩
    refine ⟨?_,child,inside,superclass⟩
    intro same
    rw [same,place] at inside
    exact apart (Option.some.inj inside)

end Related

theorem fresh_addAll {extractions : List Extraction} {built : Model}
    (grown : Grown {} extractions built)
    (fresh : ∀ extraction ∈ extractions, extraction.unit.subclasses = []) :
    ∀ unit ∈ built.units.values, unit.subclasses = [] := by
  intro unit member
  rcases grown.origin unit member with known | ⟨extraction,inside,rfl⟩
  · cases known
  · exact fresh extraction inside

/-- Of merged and resolved units, one lists another as subclass just if the other has it as
superclass, in the order of the units; and resolving changes nothing but these two links. -/
theorem subclasses_inverse (extractions : List Extraction)
    (fresh : ∀ extraction ∈ extractions, extraction.unit.subclasses = []) :
    ∃ built resolved, ({} : Model).addAll extractions = .ok built ∧ built.resolve = .ok resolved ∧
      (∀ parent ∈ resolved.units.values, ∀ child ∈ resolved.units.values,
        child.qualifiedName ∈ parent.subclasses ↔
          parent ≠ child ∧ child.superclass = some parent.qualifiedName) ∧
      (∀ unit ∈ resolved.units.values, unit.subclasses.Nodup ∧
        unit.subclasses.Sublist (resolved.units.values.map CompilationUnit.qualifiedName)) ∧
      (∀ name unit, built.units.get? name = some unit →
        ∃ settled, resolved.units.get? name = some settled ∧
          settled = {unit with superclass := settled.superclass, subclasses := settled.subclasses}) ∧
      resolved.units.keys = built.units.keys ∧ resolved.packages = built.packages ∧
      resolved.endpoints = built.endpoints ∧ resolved.enums = built.enums := by
  obtain ⟨built,run,grown⟩ := @addAll_open {} rfl extractions
  have sound := (grown.reachable .empty).coherent
  have bare := fresh_addAll grown fresh
  have coherent := sound.related
  have linked := linked_related sound bare
  refine ⟨built,built.related,run,resolve_open grown.isOpen,?_,?_,?_,keys_related sound,
    packages_related built,endpoints_related sound,enums_related sound⟩
  · intro parent above child below
    exact linked.mem_subclasses coherent above below
  · intro unit member
    have found := coherent.mem_units.mp member
    refine ⟨linked.distinct _ unit found,?_⟩
    rw [coherent.qualifiedNames_eq,keys_related sound]
    exact sublist_subclasses sound bare found
  · intro name unit found
    refine ⟨_,by rw [get?_related sound,found,Option.map_some],?_⟩
    rfl

/-- A subclass that comes before its superclass is linked, a unit that extends itself is not, and
a second unit of a known name leaves no link. -/
theorem subclasses_inverse_refused :
    ∃ resolved : Model,
      (({} : Model).addAll [
          {unit := {name := "Low",package := "p",file := "Low.java",superclass := some "High"}},
          {unit := {name := "High",package := "p",file := "High.java",superclass := some "High"}},
          {unit := {name := "Other",package := "p",file := "Other.java"}},
          {unit :=
            {name := "Other",package := "p",file := "q.java",superclass := some "p.High"}}]).bind
        resolve = .ok resolved ∧
      ∃ high ∈ resolved.units.values, high.qualifiedName = "p.High" ∧
        "p.Low" ∈ high.subclasses ∧ "p.High" ∉ high.subclasses ∧ "p.Other" ∉ high.subclasses := by
  obtain ⟨built,resolved,run,done,inverse,_⟩ := subclasses_inverse [
    {unit := {name := "Low",package := "p",file := "Low.java",superclass := some "High"}},
    {unit := {name := "High",package := "p",file := "High.java",superclass := some "High"}},
    {unit := {name := "Other",package := "p",file := "Other.java"}},
    {unit := {name := "Other",package := "p",file := "q.java",superclass := some "p.High"}}]
    (by decide)
  refine ⟨resolved,by rw [run]; exact done,?_⟩
  cases run
  cases done
  refine ⟨_,List.mem_cons_of_mem _ List.mem_cons_self,rfl,?_,?_,?_⟩
  · exact (inverse _ (List.mem_cons_of_mem _ List.mem_cons_self) _ List.mem_cons_self).mpr
      ⟨by decide,rfl⟩
  · intro listed
    have links := (inverse _ (List.mem_cons_of_mem _ List.mem_cons_self) _
      (List.mem_cons_of_mem _ List.mem_cons_self)).mp listed
    exact links.1 rfl
  · intro listed
    have links := (inverse _ (List.mem_cons_of_mem _ List.mem_cons_self) _
      (List.mem_cons_of_mem _ (List.mem_cons_of_mem _ List.mem_cons_self))).mp listed
    exact absurd links.2 (by decide)

end JavaAtlas.Model
