import JavaAtlas.Proofs.Reachable
import Mathlib.Data.List.Induction

/-! Units are rewritten one by one, each in its place, and come out as if all had been rewritten
at once: a reference is looked up in the keys and in the index, which no rewriting touches. -/
namespace JavaAtlas

/-- The unit with one more subclass, unless it has it. -/
def CompilationUnit.withSubclass (unit : CompilationUnit) (child : String) : CompilationUnit :=
  if unit.subclasses.contains child then unit
  else {unit with subclasses := unit.subclasses ++ [child]}

namespace Model

/-- The written superclass of a unit, and what it stands for. -/
def reading (model : Model) (name : String) : Option (String × Resolution) :=
  (model.units.get? name).bind fun unit => unit.superclass.map fun reference =>
    (reference,model.resolution reference unit.package)

def superclassOf (model : Model) (name : String) : Option String :=
  (model.reading name).map fun read => read.2.name

/-- The names other than `parent` of units that have it as superclass. -/
def heirs (model : Model) (names : List String) (parent : String) : List String :=
  names.filter fun name => name != parent && model.superclassOf name == some parent

/-- A unit after those with the names have been rewritten, which can be it or its heirs. -/
def rewritten (model : Model) (names : List String) (name : String) (unit : CompilationUnit) :
    CompilationUnit :=
  {unit with
    superclass := if name ∈ names then model.superclassOf name else unit.superclass
    subclasses := unit.subclasses ++
      (model.heirs names name).filter fun heir => !unit.subclasses.contains heir}

def noteReading (model noted : Model) (name : String) : Model :=
  match model.reading name with
  | some (reference,resolution) => noted.note name reference resolution
  | none => noted

def progress (model : Model) (names : List String) : Model :=
  {names.foldl model.noteReading model with
    units := model.units.mapValues (model.rewritten names)}

theorem resolution_congr {model other : Model} (keys : other.units.keys = model.units.keys)
    (packages : other.packages = model.packages) (reference package : String) :
    other.resolution reference package = model.resolution reference package := by
  have contains (key : String) : other.units.contains key = model.units.contains key := by
    rw [Bool.eq_iff_iff,OrderedMap.contains_iff,OrderedMap.contains_iff,keys]
  have candidates : other.candidates reference = model.candidates reference := by
    rw [candidates,candidates,packages]
  rw [resolution,resolution,contains,candidates]

theorem note_units (model : Model) (units : OrderedMap String CompilationUnit)
    (owner reference : String) (resolution : Resolution) :
    ({model with units} : Model).note owner reference resolution =
      {model.note owner reference resolution with units} := by
  unfold note
  split <;> rfl

theorem link_units (model : Model) (child parent : String) :
    model.link child parent = {model with units := (model.link child parent).units} := by
  unfold link
  split
  · split <;> rfl
  · rfl

theorem get?_link (model : Model) (child parent key : String) :
    (model.link child parent).units.get? key =
      (model.units.get? key).map fun unit =>
        if key = parent then unit.withSubclass child else unit := by
  unfold link
  by_cases same : key = parent
  · subst same
    simp only [if_true]
    split
    · next unit found =>
      rw [found,Option.map_some,CompilationUnit.withSubclass]
      split
      · exact found
      · rw [put,OrderedMap.get?_insert,if_pos rfl]
    · next absent => rw [absent,Option.map_none]
  · simp only [same,if_false,Option.map_id_fun',id_eq]
    split
    · split
      · rfl
      · rw [put,OrderedMap.get?_insert,if_neg same]
    · rfl

section Step
variable {model : Model} {name reference : String} {unit : CompilationUnit}

theorem resolveUnit_written (found : model.units.get? name = some unit)
    (written : unit.superclass = some reference) :
    model.resolveUnit name =
      let resolution := model.resolution reference unit.package
      let rewritten := (model.note unit.qualifiedName reference resolution).put name
        {unit with superclass := some resolution.name}
      if resolution.name = name then rewritten
      else rewritten.link unit.qualifiedName resolution.name := by
  unfold resolveUnit
  simp only [found,written]
  rfl

/-- Rewriting a unit changes units and notes, and nothing else. -/
theorem resolveUnit_units (found : model.units.get? name = some unit)
    (written : unit.superclass = some reference) :
    model.resolveUnit name =
      {model.note unit.qualifiedName reference (model.resolution reference unit.package) with
        units := (model.resolveUnit name).units} := by
  rw [resolveUnit_written found written]
  generalize model.resolution reference unit.package = resolution
  by_cases itself : resolution.name = name
  · simp only [itself,if_true]
    rfl
  · simp only [itself,if_false]
    rw [link_units]
    rfl

theorem keys_resolveUnit (model : Model) (name : String) :
    (model.resolveUnit name).units.keys = model.units.keys := by
  rw [← keys_outline,outline_resolveUnit,keys_outline]

theorem get?_resolveUnit (found : model.units.get? name = some unit)
    (written : unit.superclass = some reference) (key : String) :
    (model.resolveUnit name).units.get? key =
      (if key = name then
        some {unit with superclass := some (model.resolution reference unit.package).name}
      else model.units.get? key).map fun other =>
        if key ≠ name ∧ key = (model.resolution reference unit.package).name then
          other.withSubclass unit.qualifiedName
        else other := by
  rw [resolveUnit_written found written]
  generalize model.resolution reference unit.package = resolution
  by_cases itself : resolution.name = name
  · simp only [itself,if_true]
    rw [put,OrderedMap.get?_insert,units_note]
    by_cases same : key = name <;> simp [same]
  · simp only [itself,if_false]
    rw [get?_link,put,OrderedMap.get?_insert,units_note]
    by_cases same : key = name
    · simp [same,Ne.symm itself]
    · simp [same]

end Step

theorem heirs_concat (model : Model) (names : List String) (name parent : String) :
    model.heirs (names ++ [name]) parent =
      if parent ≠ name ∧ model.superclassOf name = some parent then
        model.heirs names parent ++ [name]
      else model.heirs names parent := by
  have last : (name != parent && model.superclassOf name == some parent) =
      decide (parent ≠ name ∧ model.superclassOf name = some parent) := by
    rw [Bool.eq_iff_iff,Bool.and_eq_true,bne_iff_ne,beq_iff_eq,decide_eq_true_eq,ne_comm]
  rw [heirs,List.filter_append,← heirs,List.filter_cons,List.filter_nil,last]
  split <;> simp_all

theorem rewritten_concat (model : Model) {names : List String} {name : String}
    (fresh : name ∉ names) (key : String) (unit : CompilationUnit) :
    model.rewritten (names ++ [name]) key unit =
      let before := model.rewritten names key unit
      let after :=
        if key = name then {before with superclass := model.superclassOf name} else before
      if key ≠ name ∧ model.superclassOf name = some key then after.withSubclass name
      else after := by
  dsimp only
  by_cases linked : key ≠ name ∧ model.superclassOf name = some key
  · have absent : name ∉ model.heirs names key := fun member =>
      fresh (List.mem_filter.mp member).1
    rw [if_pos linked,if_neg linked.1,rewritten,heirs_concat,if_pos linked,rewritten,
      CompilationUnit.withSubclass]
    -- A unit may list the heir from the start, and then it gets no second entry.
    by_cases known : name ∈ unit.subclasses <;> simp [known,absent,linked.1]
  · rw [if_neg linked,rewritten,heirs_concat,if_neg linked,rewritten]
    by_cases same : key = name <;> simp [same]

theorem reading_of_written {model : Model} {name reference : String} {unit : CompilationUnit}
    (found : model.units.get? name = some unit) (written : unit.superclass = some reference) :
    model.reading name = some (reference,model.resolution reference unit.package) := by
  rw [reading,found,Option.bind_some,written,Option.map_some]

/-- Notes go into ambiguities and warnings, and nowhere else. -/
theorem noteReading_eq (model noted : Model) (name : String) :
    model.noteReading noted name =
      {noted with
        ambiguities := (model.noteReading noted name).ambiguities
        warnings := (model.noteReading noted name).warnings} := by
  unfold noteReading
  split
  · unfold note
    split <;> rfl
  · rfl

theorem noteReadings_eq (model noted : Model) (names : List String) :
    names.foldl model.noteReading noted =
      {noted with
        ambiguities := (names.foldl model.noteReading noted).ambiguities
        warnings := (names.foldl model.noteReading noted).warnings} := by
  induction names generalizing noted with
  | nil => rfl
  | cons name rest ih =>
    rw [List.foldl_cons]
    generalize same : model.noteReading noted name = next
    have notes := noteReading_eq model noted name
    rw [same] at notes
    refine (ih next).trans ?_
    rw [notes]

theorem packages_noteReadings (model noted : Model) (names : List String) :
    (names.foldl model.noteReading noted).packages = noted.packages := by
  rw [noteReadings_eq]

theorem get?_progress (model : Model) (names : List String) (key : String) :
    (model.progress names).units.get? key =
      (model.units.get? key).map (model.rewritten names key) :=
  OrderedMap.get?_mapValues model.units _ key

theorem keys_progress (model : Model) (names : List String) :
    (model.progress names).units.keys = model.units.keys :=
  OrderedMap.keys_mapValues model.units _

theorem resolution_progress (model : Model) (names : List String) (reference package : String) :
    (model.progress names).resolution reference package = model.resolution reference package :=
  resolution_congr (keys_progress model names) (packages_noteReadings model model names) _ _

theorem progress_nil (model : Model) : model.progress [] = model := by
  have same (key : String) (unit : CompilationUnit) : model.rewritten [] key unit = unit := by
    simp [rewritten,heirs]
  have units : model.units.mapValues (model.rewritten []) = model.units := by
    apply OrderedMap.ext
    simp [OrderedMap.mapValues,same]
  rw [progress,units]
  rfl

theorem progress_unread {model : Model} {names : List String} {name : String}
    (fresh : name ∉ names) (unread : model.reading name = none) :
    model.progress (names ++ [name]) = model.progress names := by
  have superclass : model.superclassOf name = none := by rw [superclassOf,unread,Option.map_none]
  have units : model.units.mapValues (model.rewritten (names ++ [name])) =
      model.units.mapValues (model.rewritten names) := by
    apply OrderedMap.ext_get? (by rw [OrderedMap.keys_mapValues,OrderedMap.keys_mapValues])
    intro key _
    rw [OrderedMap.get?_mapValues,OrderedMap.get?_mapValues]
    apply Option.map_congr
    intro unit found
    simp only [rewritten_concat model fresh,superclass]
    by_cases same : key = name
    · subst same
      have written : unit.superclass = none := by simpa [reading,found] using unread
      simp [rewritten,fresh,written]
    · simp [same]
  rw [progress,units,List.foldl_append,List.foldl_cons,List.foldl_nil,noteReading,unread]
  rfl

theorem resolveUnit_progress {model : Model} (coherent : model.Coherent) {names : List String}
    {name : String} (fresh : name ∉ names) :
    (model.progress names).resolveUnit name = model.progress (names ++ [name]) := by
  cases found : model.units.get? name with
  | none =>
    have unread : model.reading name = none := by rw [reading,found,Option.bind_none]
    rw [progress_unread fresh unread,resolveUnit,get?_progress,found]
    rfl
  | some unit =>
    have before : (model.progress names).units.get? name = some (model.rewritten names name unit) := by
      rw [get?_progress,found,Option.map_some]
    have kept : (model.rewritten names name unit).superclass = unit.superclass := by
      rw [rewritten,if_neg fresh]
    cases written : unit.superclass with
    | none =>
      have unread : model.reading name = none := by
        rw [reading,found,Option.bind_some,written,Option.map_none]
      rw [progress_unread fresh unread,resolveUnit,before]
      simp only [kept,written]
    | some reference =>
      have read := reading_of_written found written
      have superclass : model.superclassOf name =
          some (model.resolution reference unit.package).name := by
        rw [superclassOf,read,Option.map_some]
      -- The note is kept under the qualified name, the unit under its key.
      have owner : (model.rewritten names name unit).qualifiedName = name := by
        change unit.qualifiedName = name
        exact coherent.get?_units found
      have resolution : (model.progress names).resolution reference
          (model.rewritten names name unit).package = model.resolution reference unit.package :=
        resolution_progress model names reference unit.package
      have units : ((model.progress names).resolveUnit name).units =
          model.units.mapValues (model.rewritten (names ++ [name])) := by
        apply OrderedMap.ext_get?
        · rw [keys_resolveUnit,keys_progress,OrderedMap.keys_mapValues]
        · intro key _
          rw [get?_resolveUnit before (kept.trans written),OrderedMap.get?_mapValues,owner,resolution,
            get?_progress]
          by_cases itself : key = name
          · subst itself
            simp [found,rewritten_concat model fresh,superclass]
          · rw [if_neg itself,Option.map_map]
            apply Option.map_congr
            intro other _
            simp only [rewritten_concat model fresh,superclass,itself,Function.comp_apply,ne_eq,
              not_false_eq_true,true_and,if_false,Option.some.injEq,eq_comm]
      rw [resolveUnit_units before (kept.trans written),units,owner,resolution,progress,note_units,
        progress,List.foldl_append,List.foldl_cons,List.foldl_nil,noteReading,read]

/-- Rewriting units in any order does to them what rewriting them at once does. -/
theorem resolveUnits_eq_progress {model : Model} (coherent : model.Coherent) {names : List String}
    (distinct : names.Nodup) : names.foldl resolveUnit model = model.progress names := by
  induction names using List.reverseRecOn with
  | nil => exact (progress_nil model).symm
  | append_singleton names name ih =>
    rw [List.nodup_append] at distinct
    have fresh : name ∉ names := fun member => distinct.2.2 name member name (by simp) rfl
    rw [List.foldl_append,ih distinct.1,List.foldl_cons,List.foldl_nil,
      resolveUnit_progress coherent fresh]

theorem related_eq {model : Model} (coherent : model.Coherent) :
    model.related = {model.progress model.units.keys with resolved := true} := by
  rw [related,resolveUnits_eq_progress coherent model.units.nodup_keys]

theorem packages_related (model : Model) : model.related.packages = model.packages :=
  (outline_resolveUnits model.units.keys model).2

theorem keys_related {model : Model} (coherent : model.Coherent) :
    model.related.units.keys = model.units.keys := by
  rw [related_eq coherent]
  exact keys_progress model model.units.keys

theorem get?_related {model : Model} (coherent : model.Coherent) (name : String) :
    model.related.units.get? name =
      (model.units.get? name).map (model.rewritten model.units.keys name) := by
  rw [related_eq coherent]
  exact get?_progress model model.units.keys name

theorem endpoints_related {model : Model} (coherent : model.Coherent) :
    model.related.endpoints = model.endpoints := by
  rw [related_eq coherent,progress,noteReadings_eq]

theorem enums_related {model : Model} (coherent : model.Coherent) :
    model.related.enums = model.enums := by
  rw [related_eq coherent,progress,noteReadings_eq]

end Model

end JavaAtlas
