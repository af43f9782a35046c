import JavaAtlas.Proofs.Ownership

/-! What merging one more file leaves of a model. Units and operations stay, and new ones come
behind them. The constants of an enum stay only while no later file that is taken declares an enum
of the same package and simple name, for enums carry no trace of the type they stand in. -/
namespace JavaAtlas.Model

theorem get?_enums_merged (model : Model) (extraction : Extraction) (name : String) :
    (model.merged extraction).enums.get? name =
      (extraction.enums.get? name).or (model.enums.get? name) :=
  OrderedMap.get?_insertAll model.enums extraction.enums.distinct name

/-- An open model answers every file. Whatever the answer, units and operations stay as they were,
and an enum does unless the file is taken and gives it other constants. -/
theorem merging_keeps {model : Model} (isOpen : model.resolved = false) (extraction : Extraction) :
    ∃ next taken, model.add extraction = .ok (next,taken) ∧
      model.units.entries <+: next.units.entries ∧
      (∀ name unit, model.units.get? name = some unit → next.units.get? name = some unit) ∧
      model.endpoints <+: next.endpoints ∧
      ∀ name constants, model.enums.get? name = some constants →
        (next.enums.get? name = some constants ↔
          taken = false ∨ ∀ others, extraction.enums.get? name = some others → others = constants) := by
  rcases add_cases isOpen extraction with ⟨absent,taken⟩ | ⟨_,warning,left⟩
  · have entries : (model.merged extraction).units.entries =
        model.units.entries ++ [(extraction.unit.qualifiedName,extraction.unit)] :=
      OrderedMap.entries_insert_of_not_mem absent extraction.unit
    refine ⟨_,true,taken,⟨_,entries.symm⟩,?_,⟨extraction.endpoints,rfl⟩,?_⟩
    · intro name unit found
      rw [OrderedMap.get?_eq_some] at found ⊢
      rw [entries]
      exact List.mem_append_left _ found
    · intro name constants known
      rw [get?_enums_merged,known]
      cases extraction.enums.get? name with
      | none => simp
      | some others => simp
  · refine ⟨_,false,left,List.prefix_rfl,fun _ _ found => found,List.prefix_rfl,?_⟩
    intro name constants known
    exact ⟨fun _ => .inl rfl,fun _ => known⟩

/-- A second file keeps the enum of the first where it declares another one. -/
theorem merging_keeps_apart :
    let first : Extraction :=
      { unit := {name := "A",package := "p",file := "p/A.java"}
        enums := .ofList [("p.Mode",["READ","WRITE"])] }
    let second : Extraction :=
      { unit := {name := "B",package := "p",file := "p/B.java"}
        enums := .ofList [("p.Flag",["ON"])] }
    let model := ((Change.add first).run.run {}).2
    model.resolved = false ∧ ∃ next taken, model.add second = .ok (next,taken) ∧
      next.enums.get? "p.Mode" = some ["READ","WRITE"] := by
  intro first second model
  have isOpen : model.resolved = false := by decide
  obtain ⟨next,taken,added,_,_,_,enums⟩ := merging_keeps isOpen second
  refine ⟨isOpen,next,taken,added,?_⟩
  apply (enums "p.Mode" ["READ","WRITE"] (by decide)).mpr
  right
  intro others declared
  have absent : second.enums.get? "p.Mode" = none := by decide
  rw [absent] at declared
  cases declared

/-- Two classes of one package that each hold an enum of the same name are both taken, and the
constants of the first enum are gone. -/
theorem merging_replaces_enum :
    let first := Extraction.ofText "package p; class A { enum Mode { READ } }".toList "p/A.java"
    let second := Extraction.ofText "package p; class B { enum Mode { OFF } }".toList "p/B.java"
    let model := ((Change.add first).run.run {}).2
    let next := ((Change.add second).run.run model).2
    model.Reachable ∧ model.resolved = false ∧ model.add second = .ok (next,true) ∧
      model.enums.get? "p.Mode" = some ["READ"] ∧ next.enums.get? "p.Mode" = some ["OFF"] := by
  refine ⟨.add .empty _,?_,?_,?_,?_⟩
  all_goals decide +kernel

end JavaAtlas.Model
