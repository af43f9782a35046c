import JavaAtlas.Proofs.Forest
import Mathlib.Data.List.TakeWhile

/-! The outline of a forest. A unit is followed by those below it, each at its depth, and so the
forest can be read back: below a unit stands what follows it at a greater depth. -/
namespace JavaAtlas.ClassTree
variable {α : Type} {depth : Int}

/-- The trees that a list of units with depths is the outline of. -/
def regrow : List (α × Int) → List (ClassTree α)
  | [] => []
  | (unit,depth) :: rest =>
    .node unit (regrow (rest.takeWhile (depth < ·.2))) :: regrow (rest.dropWhile (depth < ·.2))
termination_by list => list.length
decreasing_by
  · exact Nat.lt_succ_of_le (List.takeWhile_sublist _).length_le
  · exact Nat.lt_succ_of_le (List.dropWhile_sublist _).length_le

/-- The trees that stand a number of steps below those of a forest, from left to right. -/
def level : Nat → List (ClassTree α) → List (ClassTree α)
  | 0, trees => trees
  | n + 1, trees => level n (trees.flatMap children)

/-- A list that begins at a depth, never comes above it and goes down by single steps. -/
structure Outline (depth : Int) (list : List (α × Int)) : Prop where
  begins : ∀ entry ∈ list.head?, entry.2 = depth
  within : ∀ entry ∈ list, depth ≤ entry.2
  steps : list.IsChain fun one next => next.2 ≤ one.2 + 1

theorem flattenAll_cons (unit : α) (children rest : List (ClassTree α)) :
    flattenAll depth (.node unit children :: rest) =
      (unit,depth) :: (flattenAll (depth + 1) children ++ flattenAll depth rest) := by
  rw [flattenAll,flatten,List.cons_append]

section Outlines
variable {unit : α} {below rest list : List (α × Int)}

/-- What stands below a unit, and what follows at its depth. -/
theorem Outline.node (inner : Outline (depth + 1) below) (others : Outline depth rest) :
    Outline depth ((unit,depth) :: (below ++ rest)) := by
  constructor
  · rintro _ ⟨⟩
    rfl
  · intro entry member
    rw [List.mem_cons,List.mem_append] at member
    rcases member with rfl | deeper | further
    · exact Int.le_refl depth
    · exact (Int.le_add_one (Int.le_refl depth)).trans (inner.within entry deeper)
    · exact others.within entry further
  · rw [List.isChain_cons,List.isChain_append]
    refine ⟨?_,inner.steps,others.steps,?_⟩
    · intro next first
      dsimp only
      rw [List.head?_append,Option.mem_def,Option.or_eq_some_iff] at first
      rcases first with first | ⟨_,first⟩
      · exact (inner.begins next first).le
      · have same := others.begins next first
        omega
    -- Where the two lists meet, the step is an upward one.
    · intro last final next first
      have deep := inner.within last (List.mem_of_getLast? final)
      have same := others.begins next first
      omega

/-- The entries behind a unit are divided where they come back to its depth. -/
theorem Outline.divide (outline : Outline depth ((unit,depth) :: list)) :
    Outline (depth + 1) (list.takeWhile (depth < ·.2)) ∧
      Outline depth (list.dropWhile (depth < ·.2)) := by
  obtain ⟨_,within,steps⟩ := outline
  obtain ⟨first,steps⟩ := List.isChain_cons.mp steps
  rw [← @List.takeWhile_append_dropWhile _ (depth < ·.2) list,List.isChain_append] at steps
  have low : ∀ entry ∈ list.dropWhile (depth < ·.2), depth ≤ entry.2 := fun entry member =>
    within entry (List.mem_cons_of_mem _ ((List.dropWhile_sublist _).mem member))
  refine ⟨⟨?_,?_,steps.1⟩,⟨?_,low,steps.2.1⟩⟩
  · intro entry head
    rw [List.head?_takeWhile,Option.mem_def,Option.filter_eq_some_iff] at head
    have step := first entry head.1
    have deeper := of_decide_eq_true head.2
    dsimp only at step
    omega
  · intro entry member
    have deeper := List.mem_takeWhile_imp member
    exact Int.add_one_le_of_lt (of_decide_eq_true deeper)
  · intro entry head
    have bound := List.head?_dropWhile_not (depth < ·.2) list
    rw [Option.mem_def.mp head] at bound
    exact Int.le_antisymm (Int.not_lt.mp (of_decide_eq_false bound))
      (low entry (List.mem_of_head? head))

theorem regrow_node (inner : Outline (depth + 1) below) (others : Outline depth rest) :
    regrow ((unit,depth) :: (below ++ rest)) = .node unit (regrow below) :: regrow rest := by
  have deeper : ∀ entry ∈ below, decide (depth < entry.2) = true := fun entry member =>
    decide_eq_true (Int.lt_of_add_one_le (inner.within entry member))
  have level : ∀ inside : 0 < rest.length, ¬decide (depth < rest[0].2) = true := by
    intro inside below
    have same := others.begins rest[0] (List.head?_eq_getElem? ▸ List.getElem?_eq_getElem inside)
    exact absurd (of_decide_eq_true below) (by omega)
  rw [regrow,List.takeWhile_append_of_pos deeper,List.dropWhile_append_of_pos deeper,
    List.takeWhile_eq_nil_iff.mpr level,List.dropWhile_eq_self_iff.mpr level,List.append_nil]

theorem flattenAll_regrow (outline : Outline depth list) : flattenAll depth (regrow list) = list := by
  -- Down the recursion of `regrow`; what stands deeper is an outline at the next depth.
  induction list using regrow.induct generalizing depth with
  | case1 => rw [regrow,flattenAll]
  | case2 unit n rest ihDeeper ihBehind =>
    obtain rfl : n = depth := outline.begins _ rfl
    rw [regrow,flattenAll_cons,ihDeeper outline.divide.1,ihBehind outline.divide.2,
      List.takeWhile_append_dropWhile]

end Outlines

theorem outline_flattenAll (depth : Int) : ∀ trees : List (ClassTree α),
    Outline depth (flattenAll depth trees)
  | [] => ⟨nofun,nofun,.nil⟩
  | .node unit children :: rest => by
    rw [flattenAll_cons]
    exact (outline_flattenAll (depth + 1) children).node (outline_flattenAll depth rest)

theorem regrow_flattenAll (depth : Int) : ∀ trees : List (ClassTree α),
    regrow (flattenAll depth trees) = trees
  | [] => by rw [flattenAll,regrow]
  | .node unit children :: rest => by
    rw [flattenAll_cons,regrow_node (outline_flattenAll _ children) (outline_flattenAll _ rest),
      regrow_flattenAll (depth + 1) children,regrow_flattenAll depth rest]

section Levels
variable {trees : List (ClassTree α)} {n : Int}

theorem flattenAll_append (depth : Int) (one two : List (ClassTree α)) :
    flattenAll depth (one ++ two) = flattenAll depth one ++ flattenAll depth two := by
  rw [flattenAll_eq,flattenAll_eq,flattenAll_eq,List.flatMap_append]

theorem filter_above (above : n < depth) : (flattenAll depth trees).filter (·.2 = n) = [] := by
  rw [List.filter_eq_nil_iff]
  intro entry member same
  have low := (outline_flattenAll depth trees).within entry member
  exact absurd (of_decide_eq_true same) (by omega)

/-- At a greater depth, only what stands below the roots of the forest is listed. -/
theorem filter_deeper (deeper : depth < n) : (flattenAll depth trees).filter (·.2 = n) =
    (flattenAll (depth + 1) (trees.flatMap children)).filter (·.2 = n) := by
  induction trees with
  | nil => rfl
  | cons tree rest ih =>
    obtain ⟨unit,children⟩ := tree
    rw [flattenAll_cons,List.flatMap_cons,flattenAll_append,List.filter_cons_of_neg (by simp; omega),
      List.filter_append,List.filter_append,ih]
    rfl

theorem filter_roots (depth : Int) (trees : List (ClassTree α)) :
    (flattenAll depth trees).filter (·.2 = depth) = trees.map fun tree => (tree.unit,depth) := by
  induction trees with
  | nil => rfl
  | cons tree rest ih =>
    obtain ⟨unit,children⟩ := tree
    rw [flattenAll_cons,List.filter_cons_of_pos (by simp),List.filter_append,
      filter_above (Int.lt_succ depth),ih]
    rfl

/-- Each level is listed, from left to right, at its depth. -/
theorem filter_level (n : Nat) (depth : Int) (trees : List (ClassTree α)) :
    (flattenAll depth trees).filter (·.2 = depth + n) =
      (level n trees).map fun tree => (tree.unit,depth + n) := by
  induction n generalizing depth trees with
  | zero => simpa [level] using filter_roots depth trees
  | succ n ih =>
    have place : depth + ((n + 1 : Nat) : Int) = depth + 1 + n := by omega
    rw [level,place,filter_deeper (by omega),ih]

end Levels

/-- The outline keeps the whole forest. Two forests never share one, and every list that begins at
the depth, never comes above it and goes down by single steps is one. In an outline every unit comes
as often as in the forest, and each level stands at its depth. -/
theorem flattenAll_keeps_forest (depth : Int) :
    Function.Injective (@flattenAll α depth) ∧
    (∀ list : List (α × Int), (∃ trees, flattenAll depth trees = list) ↔ Outline depth list) ∧
    ∀ trees : List (ClassTree α),
      (∀ kind : α → Bool, (flattenAll depth trees).countP (fun entry => kind entry.1) =
        (nodesAll trees).countP fun tree => kind tree.unit) ∧
      (∀ n : Nat, (flattenAll depth trees).filter (·.2 = depth + n) =
        (level n trees).map fun tree => (tree.unit,depth + n)) ∧
      (∀ entry ∈ flattenAll depth trees, depth ≤ entry.2) ∧
      (flattenAll depth trees).IsChain fun one next => next.2 ≤ one.2 + 1 := by
  have inverse : Function.LeftInverse regrow (@flattenAll α depth) := regrow_flattenAll depth
  refine ⟨inverse.injective,fun list => ⟨?_,?_⟩,fun trees => ?_⟩
  · rintro ⟨trees,rfl⟩
    exact outline_flattenAll depth trees
  · exact fun outline => ⟨_,flattenAll_regrow outline⟩
  · have outline := outline_flattenAll depth trees
    refine ⟨fun kind => ?_,fun n => filter_level n depth trees,outline.within,outline.steps⟩
    have units := congrArg (List.countP kind) (units_flattenAll depth trees)
    rw [List.countP_map,List.countP_map] at units
    exact units

/-- A unit below another one is told from one beside it, and no step goes two levels down. -/
theorem flattenAll_keeps_forest_steps :
    flattenAll 0 [.node 'a' [.node 'b' []]] ≠ flattenAll 0 [.node 'a' [],.node 'b' []] ∧
      ¬∃ trees, flattenAll 0 trees = [('a',0),('b',2)] := by
  obtain ⟨injective,outlines,_⟩ := @flattenAll_keeps_forest Char 0
  constructor
  · apply injective.ne
    simp
  · intro found
    have step := ((outlines _).mp found).steps
    rw [List.isChain_cons_cons] at step
    exact absurd step.1 (by decide)

end JavaAtlas.ClassTree
