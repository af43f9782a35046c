import JavaAtlas.Proofs.Document
import JavaAtlas.Summary.Assistant

/-! Models that can come about: from the empty one by merging, resolving, looking up references,
warning, summarising, and storing and reading back, in any order. -/
namespace JavaAtlas.Model

/-- What an open model becomes when a unit of a new name is merged. -/
def merged (model : Model) (extraction : Extraction) : Model :=
  {model.enter extraction.unit with
    endpoints := model.endpoints ++ extraction.endpoints
    enums := model.enums.insertAll extraction.enums.entries}

/-- What an open model becomes when it is resolved. -/
def related (model : Model) : Model :=
  {model.units.keys.foldl resolveUnit model with resolved := true}

namespace Change
variable {model next : Model} {refusal : Refusal} {extraction : Extraction}

theorem run_bind_get {α : Type} (next : Model → Change α) (model : Model) :
    (get >>= next : Change α).run.run model = (next model).run.run model := rfl

theorem run_add (model : Model) (extraction : Extraction) :
    (add extraction).run.run model =
      if model.resolved then (.error .closed,model)
      else
        match model.units.get? extraction.unit.qualifiedName with
        | some known => (.ok false,model.warn (duplicateWarning extraction.unit known))
        | none => (.ok true,model.merged extraction) := by
  unfold add
  rw [run_bind_get]
  split
  · rfl
  · dsimp only
    cases model.units.get? extraction.unit.qualifiedName <;> rfl

theorem run_resolve (model : Model) :
    resolve.run.run model =
      if model.resolved then (.error .alreadyResolved,model) else (.ok (),model.related) := by
  unfold resolve
  rw [run_bind_get]
  split <;> rfl

theorem add_duplicate :
    (add extraction).run.run model = (.ok false,next) ↔
      model.resolved = false ∧ ∃ known,
        model.units.get? extraction.unit.qualifiedName = some known ∧
          next = model.warn (duplicateWarning extraction.unit known) := by
  rw [run_add]
  constructor
  · intro run
    split at run
    · cases run
    · next isOpen =>
      split at run
      · next known found =>
        cases run
        exact ⟨Bool.not_eq_true _ ▸ isOpen,known,found,rfl⟩
      · cases run
  · rintro ⟨isOpen,known,found,rfl⟩
    rw [isOpen,if_neg Bool.false_ne_true,found]

theorem add_refused :
    (add extraction).run.run model = (.error refusal,next) ↔
      model.resolved = true ∧ refusal = .closed ∧ next = model := by
  rw [run_add]
  constructor
  · intro run
    split at run
    · next closed =>
      cases run
      exact ⟨closed,rfl,rfl⟩
    · split at run <;> cases run
  · rintro ⟨closed,rfl,rfl⟩
    rw [if_pos closed]

theorem resolve_refused :
    resolve.run.run model = (.error refusal,next) ↔
      model.resolved = true ∧ refusal = .alreadyResolved ∧ next = model := by
  rw [run_resolve]
  constructor
  · intro run
    split at run
    · next closed =>
      cases run
      exact ⟨closed,rfl,rfl⟩
    · cases run
  · rintro ⟨closed,rfl,rfl⟩
    rw [if_pos closed]

end Change

theorem outline_resolveUnit (model : Model) (name : String) :
    (model.resolveUnit name).outline = model.outline := by
  unfold resolveUnit
  split
  · rfl
  · next unit found =>
    split
    · rfl
    · next reference written =>
      dsimp only [resolveReference,Option.elim]
      generalize model.resolution reference unit.package = resolution
      let noted := model.note unit.qualifiedName reference resolution
      have known : noted.units.get? name = some unit := by
        rw [units_note]
        exact found
      let rewritten := {unit with superclass := some resolution.name}
      have put : (noted.put name rewritten).outline = model.outline :=
        (outline_put noted rewritten known rfl rfl).trans (outline_note _ _ _ _)
      split
      · exact put
      · exact (outline_link _ _ _).trans put

theorem packages_resolveUnit (model : Model) (name : String) :
    (model.resolveUnit name).packages = model.packages := by
  unfold resolveUnit
  split
  · rfl
  · split
    · rfl
    · dsimp only [resolveReference,Option.elim]
      split
      · exact packages_note _ _ _ _
      · exact (packages_link _ _ _).trans (packages_note _ _ _ _)

theorem outline_resolveUnits (names : List String) (model : Model) :
    (names.foldl resolveUnit model).outline = model.outline ∧
      (names.foldl resolveUnit model).packages = model.packages := by
  induction names generalizing model with
  | nil => exact ⟨rfl,rfl⟩
  | cons name rest ih =>
    obtain ⟨outlines,packages⟩ := ih (model.resolveUnit name)
    exact ⟨outlines.trans (outline_resolveUnit model name),
      packages.trans (packages_resolveUnit model name)⟩

theorem outline_refill (entries : List (String × CompilationUnit)) (methods : List Method) :
    (refill entries methods).map (fun entry => (entry.1,entry.2.package,entry.2.name)) =
      entries.map fun entry => (entry.1,entry.2.package,entry.2.name) := by
  induction entries generalizing methods with
  | nil => rfl
  | cons entry rest ih => simp [refill,ih]

inductive Reachable : Model → Prop
  | empty : Reachable {}
  | add {model : Model} (reached : Reachable model) (extraction : Extraction) :
      Reachable ((Change.add extraction).run.run model).2
  | resolve {model : Model} (reached : Reachable model) :
      Reachable (Change.resolve.run.run model).2
  | resolveReference {model : Model} (reached : Reachable model) (reference package : String)
      (owner : Option String) : Reachable (model.resolveReference reference package owner).2
  | warn {model : Model} (reached : Reachable model) (warning : String) :
      Reachable (model.warn warning)
  | summarize {model : Model} (reached : Reachable model) (useAssistant : Bool)
      (assistant : Option Assistant) :
      Reachable (model.withMethods (Summary.all useAssistant assistant model.methods).1)
  | reload {model next : Model} (reached : Reachable model)
      (read : Model.ofJson model.toJson = .ok next) : Reachable next

theorem Coherent.merged {model : Model} (coherent : model.Coherent) {extraction : Extraction}
    (absent : extraction.unit.qualifiedName ∉ model.units.keys) :
    (model.merged extraction).Coherent :=
  (coherent.enter absent).of_outline rfl rfl

theorem Coherent.related {model : Model} (coherent : model.Coherent) : model.related.Coherent := by
  obtain ⟨outlines,packages⟩ := outline_resolveUnits model.units.keys model
  exact coherent.of_outline outlines packages

theorem Reachable.coherent {model : Model} (reachable : Reachable model) : model.Coherent := by
  induction reachable with
  | empty => exact coherent_empty
  | @add model _ extraction ih =>
    rw [Change.run_add]
    split
    · exact ih
    · split
      · exact ih.of_outline rfl rfl
      · next absent => exact ih.merged (OrderedMap.get?_eq_none.mp absent)
  | resolve _ ih =>
    rw [Change.run_resolve]
    split
    · exact ih
    · exact ih.related
  | @resolveReference model _ reference package owner ih =>
    cases owner with
    | none => exact ih
    | some owner => exact ih.of_outline (outline_note _ _ _ _) (packages_note _ _ _ _)
  | warn _ _ ih => exact ih.of_outline rfl rfl
  | @summarize model _ _ _ ih => exact ih.of_outline (outline_refill model.units.entries _) rfl
  | reload _ read ih =>
    rw [ofJson_toJson ih] at read
    exact Except.ok.inj read ▸ ih

/-- Units and index stay in step on every run, and a change that takes nothing changes nothing
but the warnings. -/
theorem index_in_step {model : Model} (reachable : Reachable model) :
    (∀ name unit, model.units.get? name = some unit → unit.qualifiedName = name) ∧
      model.packages.keys = (model.units.values.map CompilationUnit.package).eraseDups ∧
      (∀ package ∈ model.packages.keys,
        model.packages.get? package = some (namesIn model.units.values package) ∧
          (namesIn model.units.values package).Nodup) ∧
      (∀ extraction next, (Change.add extraction).run.run model = (.ok false,next) ↔
        model.resolved = false ∧ ∃ known,
          model.units.get? extraction.unit.qualifiedName = some known ∧
            next = model.warn (duplicateWarning extraction.unit known)) ∧
      (∀ extraction refusal next, (Change.add extraction).run.run model = (.error refusal,next) ↔
        model.resolved = true ∧ refusal = .closed ∧ next = model) ∧
      ∀ refusal next, Change.resolve.run.run model = (.error refusal,next) ↔
        model.resolved = true ∧ refusal = .alreadyResolved ∧ next = model := by
  have coherent := reachable.coherent
  refine ⟨?_,coherent.packages,?_,?_,?_,?_⟩
  · intro name unit found
    exact coherent.get?_units found
  · intro package member
    exact ⟨coherent.members package member,coherent.nodup_namesIn package⟩
  · intro extraction next
    exact Change.add_duplicate
  · intro extraction refusal next
    exact Change.add_refused
  · intro refusal next
    exact Change.resolve_refused

/-- Package and name can be joined to the same key in two ways; the first unit with it stays. -/
theorem index_in_step_joined :
    let first : Extraction := {unit := {name := "b.C",package := "a",file := "a/b.C.java"}}
    let second : Extraction := {unit := {name := "C",package := "a.b",file := "a/b/C.java"}}
    let model := ((Change.add first).run.run {}).2
    model.packages.keys = ["a"] ∧
      ((Change.add second).run.run model) = (.ok false,model.warn
        "Duplicate class a.b.C in a/b/C.java; keeping a/b.C.java") := by
  intro first second model
  obtain ⟨_,packages,_,duplicate,_,_⟩ := index_in_step (.add .empty first)
  exact ⟨packages.trans (by decide),(duplicate second _).mpr ⟨rfl,first.unit,by decide,by decide⟩⟩

def addAll (model : Model) (extractions : List Extraction) : Except Refusal Model :=
  extractions.foldlM (fun model extraction => (model.add extraction).map Prod.fst) model

/-- What holds of a model that grew from another by merging alone. -/
structure Grown (model : Model) (extractions : List Extraction) (built : Model) : Prop where
  isOpen : built.resolved = false
  ambiguities : built.ambiguities = model.ambiguities
  reachable : Reachable model → Reachable built
  origin : ∀ unit ∈ built.units.values,
    unit ∈ model.units.values ∨ ∃ extraction ∈ extractions, extraction.unit = unit

theorem add_open {model : Model} (isOpen : model.resolved = false) (extraction : Extraction) :
    ∃ next taken, model.add extraction = .ok (next,taken) ∧ Grown model [extraction] next := by
  have reached (reachable : Reachable model) := reachable.add extraction
  rw [Change.run_add,isOpen,if_neg Bool.false_ne_true] at reached
  rw [add,Change.outcome,Change.run_add,isOpen,if_neg Bool.false_ne_true]
  split at reached
  · exact ⟨_,_,rfl,isOpen,rfl,reached,fun unit member => .inl member⟩
  · next absent =>
    refine ⟨_,_,rfl,isOpen,rfl,reached,?_⟩
    intro unit member
    rw [merged,enter,OrderedMap.values,
      OrderedMap.entries_insert_of_not_mem (OrderedMap.get?_eq_none.mp absent),List.map_append,
      List.mem_append] at member
    rcases member with known | new
    · exact .inl known
    · exact .inr ⟨extraction,by simp,by simpa [eq_comm] using new⟩

theorem addAll_open {model : Model} (isOpen : model.resolved = false)
    (extractions : List Extraction) :
    ∃ built, model.addAll extractions = .ok built ∧ Grown model extractions built := by
  induction extractions generalizing model with
  | nil => exact ⟨model,rfl,isOpen,rfl,id,fun unit member => .inl member⟩
  | cons extraction rest ih =>
    obtain ⟨next,taken,added,first⟩ := add_open isOpen extraction
    obtain ⟨built,run,last⟩ := ih first.isOpen
    refine ⟨built,?_,last.isOpen,last.ambiguities.trans first.ambiguities,
      fun reachable => last.reachable (first.reachable reachable),?_⟩
    · rw [addAll,List.foldlM_cons,added]
      exact run
    · intro unit member
      rcases last.origin unit member with inner | ⟨source,inside,same⟩
      · rcases first.origin unit inner with known | ⟨source,inside,same⟩
        · exact .inl known
        · exact .inr ⟨source,List.mem_cons.mpr (.inl (List.mem_singleton.mp inside)),same⟩
      · exact .inr ⟨source,List.mem_cons_of_mem _ inside,same⟩

theorem resolve_open {model : Model} (isOpen : model.resolved = false) :
    model.resolve = .ok model.related := by
  rw [resolve,Change.outcome,Change.run_resolve,isOpen,if_neg Bool.false_ne_true]
  rfl

end JavaAtlas.Model
