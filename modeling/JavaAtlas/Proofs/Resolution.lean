import JavaAtlas.Proofs.Order
import JavaAtlas.Proofs.Relations

/-! What a written superclass stands for. The rule is stated on the units alone; resolution
follows it though it looks into the index of packages, and though it rewrites the units one by one
while it goes. -/
namespace JavaAtlas.Model

/-- The packages that hold a unit of the simple name, in order. -/
structure Homes (model : Model) (name : String) (packages : List String) : Prop where
  increasing : packages.Pairwise (· < ·)
  mem_iff : ∀ package, package ∈ packages ↔
    ∃ unit ∈ model.units.values, unit.package = package ∧ unit.name = name

/-- The rule of references made in a package: what they stand for, and between which names they
had to choose. -/
inductive Means (model : Model) (package reference : String) : String → List String → Prop
  | dotted (dot : '.' ∈ reference.toList) : Means model package reference reference []
  | own (undotted : '.' ∉ reference.toList) (known : qualify package reference ∈ model.units.keys) :
      Means model package reference (qualify package reference) []
  | elsewhere (undotted : '.' ∉ reference.toList)
      (foreign : qualify package reference ∉ model.units.keys) {first : String}
      {others : List String} (homes : Homes model reference (first :: others))
      (known : qualify first reference ∈ model.units.keys) :
      Means model package reference (qualify first reference)
        (if others = [] then [] else (first :: others).map fun home => qualify home reference)
  | unknown (undotted : '.' ∉ reference.toList)
      (foreign : qualify package reference ∉ model.units.keys) (homes : Homes model reference []) :
      Means model package reference reference []

theorem Coherent.candidates_eq {model : Model} (coherent : model.Coherent) (name : String) :
    ∃ homes, Homes model name homes ∧
      model.candidates name = homes.map fun package => qualify package name := by
  let holds (package : String) : Bool := ((model.packages.get? package).getD []).contains name
  refine ⟨(Text.sorted model.packages.keys).filter holds,⟨?_,?_⟩,?_⟩
  · exact (Text.strict_sorted model.packages.distinct).filter holds
  · intro package
    simp only [List.mem_filter,Text.mem_sorted,holds,coherent.get?_packages,namesIn,
      List.contains_iff_mem,List.mem_map,coherent.mem_packages,beq_iff_eq]
    constructor
    · rintro ⟨_,unit,⟨member,inside⟩,named⟩
      exact ⟨unit,member,inside,named⟩
    · rintro ⟨unit,member,inside,named⟩
      exact ⟨⟨unit,member,inside⟩,unit,⟨member,inside⟩,named⟩
  · rw [candidates,← List.filterMap_eq_map,List.filterMap_filter]
    rfl

theorem Coherent.means_resolution {model : Model} (coherent : model.Coherent)
    (reference package : String) :
    Means model package reference (model.resolution reference package).name
      (model.resolution reference package).rivals := by
  obtain ⟨homes,lists,candidates⟩ := coherent.candidates_eq reference
  unfold resolution
  split
  · next dot => exact .dotted (by simpa using dot)
  · next undotted =>
    have undotted : '.' ∉ reference.toList := by simpa using undotted
    split
    · next known => exact .own undotted (OrderedMap.contains_iff.mp known)
    · next foreign =>
      have foreign : qualify package reference ∉ model.units.keys :=
        fun member => foreign (OrderedMap.contains_iff.mpr member)
      rw [candidates]
      cases homes with
      | nil => exact .unknown undotted foreign lists
      | cons first others =>
        obtain ⟨unit,member,inside,named⟩ := (lists.mem_iff first).mp List.mem_cons_self
        have found := coherent.mem_units.mp member
        rw [CompilationUnit.qualifiedName,inside,named] at found
        have means := Means.elsewhere undotted foreign lists (OrderedMap.mem_keys_of_get? found)
        cases others with
        | nil => exact means
        | cons second rest => exact means

def written (model : Model) (name : String) : Option String :=
  (model.units.get? name).bind CompilationUnit.superclass

theorem written_of_reading {model : Model} {name : String} {read : String × Resolution}
    (reading : model.reading name = some read) : model.written name = some read.1 := by
  obtain ⟨unit,found,chosen⟩ := Option.bind_eq_some_iff.mp reading
  obtain ⟨reference,superclass,same⟩ := Option.map_eq_some_iff.mp chosen
  rw [written,found,Option.bind_some,superclass,← same]

/-- Of the units with the names, those whose reference had several candidates, with what was read
of them. -/
def disputes (model : Model) (names : List String) : List (String × String × Resolution) :=
  names.filterMap fun name => (model.reading name).bind fun read =>
    if read.2.rivals = [] then none else some (name,read)

theorem mem_disputes {model : Model} {names : List String} {name : String}
    {read : String × Resolution} :
    (name,read) ∈ model.disputes names ↔
      name ∈ names ∧ model.reading name = some read ∧ read.2.rivals ≠ [] := by
  simp only [disputes,List.mem_filterMap,Option.bind_eq_some_iff]
  constructor
  · rintro ⟨other,inside,found,reading,chosen⟩
    split at chosen
    · cases chosen
    · next several =>
      cases chosen
      exact ⟨inside,reading,several⟩
  · rintro ⟨inside,reading,several⟩
    exact ⟨name,inside,read,reading,if_neg several⟩

theorem disputes_cons (model : Model) (name : String) (rest : List String) :
    model.disputes (name :: rest) =
      ((model.reading name).bind fun read =>
        if read.2.rivals = [] then none else some (name,read)).toList ++ model.disputes rest := by
  rw [disputes,List.filterMap_cons]
  split
  · next nothing => rw [nothing]; rfl
  · next dispute found => rw [found]; rfl

theorem disputes_sublist (model : Model) (names : List String) :
    ((model.disputes names).map Prod.fst).Sublist names := by
  induction names with
  | nil => exact List.Sublist.slnil
  | cons name rest ih =>
    rw [disputes_cons,List.map_append]
    cases reading : model.reading name with
    | none => exact ih.cons name
    | some read =>
      by_cases single : read.2.rivals = []
      · simpa [single] using ih.cons name
      · simpa [single] using ih

theorem headD_rivals {model : Model} {reference package : String}
    (several : (model.resolution reference package).rivals ≠ []) :
    (model.resolution reference package).rivals.headD "" =
      (model.resolution reference package).name := by
  revert several
  fun_cases resolution model reference package <;> simp

theorem headD_reading {model : Model} {name : String} {read : String × Resolution}
    (reading : model.reading name = some read) (several : read.2.rivals ≠ []) :
    read.2.rivals.headD "" = read.2.name := by
  obtain ⟨unit,_,chosen⟩ := Option.bind_eq_some_iff.mp reading
  obtain ⟨reference,_,rfl⟩ := Option.map_eq_some_iff.mp chosen
  exact headD_rivals several

/-- The notes of a run: one entry and one warning for each dispute, in order. -/
theorem notes_eq_disputes {model noted : Model} {names : List String}
    (distinct : (noted.ambiguities.keys ++ names).Nodup) :
    (names.foldl model.noteReading noted).ambiguities.entries = noted.ambiguities.entries ++
        (model.disputes names).map (fun dispute => (dispute.1,dispute.2.2.rivals)) ∧
      (names.foldl model.noteReading noted).warnings = noted.warnings ++
        (model.disputes names).map fun dispute =>
          ambiguityWarning dispute.1 dispute.2.1 dispute.2.2.name dispute.2.2.rivals := by
  induction names generalizing noted with
  | nil => simp [disputes]
  | cons name rest ih =>
    rw [List.foldl_cons,disputes_cons]
    have shorter : (noted.ambiguities.keys ++ rest).Nodup :=
      distinct.sublist (List.Sublist.append_left (List.sublist_cons_self name rest) _)
    cases read : model.reading name with
    | none =>
      have kept : model.noteReading noted name = noted := by rw [noteReading,read]
      rw [kept]
      simpa using ih shorter
    | some found =>
      obtain ⟨reference,resolution⟩ := found
      have step : model.noteReading noted name = noted.note name reference resolution := by
        rw [noteReading,read]
      rw [step,note]
      by_cases single : resolution.rivals = []
      · rw [if_pos (by simp [single])]
        simpa [single] using ih shorter
      · have absent : name ∉ noted.ambiguities.keys := fun member =>
          (List.nodup_append.mp distinct).2.2 name member name List.mem_cons_self rfl
        -- The name has no note yet, so its entry comes in at the end.
        have entries := OrderedMap.entries_insert_of_not_mem absent resolution.rivals
        rw [if_neg (by simp [single])]
        obtain ⟨ambiguities,warnings⟩ := @ih ({noted with
            ambiguities := noted.ambiguities.insert name resolution.rivals}.warn
              (ambiguityWarning name reference resolution.name resolution.rivals)) (by
          simpa [warn,OrderedMap.keys,entries] using distinct)
        rw [ambiguities,warnings]
        simp [warn,entries,single]

section Progress
variable {model : Model} {names : List String} {name : String}

theorem entries_ambiguities (quiet : model.ambiguities = .empty) (distinct : names.Nodup) :
    (model.progress names).ambiguities.entries =
      (model.disputes names).map fun dispute => (dispute.1,dispute.2.2.rivals) := by
  have notes := (@notes_eq_disputes model model names (by rwa [quiet])).1
  rwa [quiet] at notes

theorem get?_ambiguities (quiet : model.ambiguities = .empty) (distinct : names.Nodup)
    {rivals : List String} :
    (model.progress names).ambiguities.get? name = some rivals ↔
      name ∈ names ∧ rivals ≠ [] ∧
        ∃ read, model.reading name = some read ∧ read.2.rivals = rivals := by
  rw [OrderedMap.get?_eq_some,entries_ambiguities quiet distinct,List.mem_map]
  constructor
  · rintro ⟨⟨other,read⟩,member,same⟩
    cases same
    obtain ⟨inside,reading,several⟩ := mem_disputes.mp member
    exact ⟨inside,several,read,reading,rfl⟩
  · rintro ⟨inside,several,read,reading,rfl⟩
    exact ⟨(name,read),mem_disputes.mpr ⟨inside,reading,several⟩,rfl⟩

theorem get?_ambiguities_read (quiet : model.ambiguities = .empty) (distinct : names.Nodup)
    (member : name ∈ names) {read : String × Resolution} (reading : model.reading name = some read) :
    (model.progress names).ambiguities.get? name =
      if read.2.rivals = [] then none else some read.2.rivals := by
  apply Option.ext
  intro rivals
  rw [get?_ambiguities quiet distinct,reading]
  split
  · next single =>
    constructor
    · rintro ⟨_,several,_,⟨⟩,rfl⟩
      exact absurd single several
    · exact nofun
  · next several =>
    constructor
    · rintro ⟨_,_,_,⟨⟩,rfl⟩
      rfl
    · rintro ⟨⟩
      exact ⟨member,several,read,rfl,rfl⟩

theorem superclass_progress {unit : CompilationUnit} (member : name ∈ names)
    (found : model.units.get? name = some unit) :
    ∃ settled, (model.progress names).units.get? name = some settled ∧
      settled.superclass = model.superclassOf name := by
  refine ⟨_,by rw [get?_progress,found,Option.map_some],?_⟩
  rw [rewritten,if_pos member]

theorem superclass_progress_read {unit : CompilationUnit} (member : name ∈ names)
    (found : model.units.get? name = some unit) {read : String × Resolution}
    (reading : model.reading name = some read) :
    ∃ settled, (model.progress names).units.get? name = some settled ∧
      settled.superclass = some read.2.name := by
  obtain ⟨settled,place,same⟩ := superclass_progress member found
  exact ⟨settled,place,by rw [same,superclassOf,reading,Option.map_some]⟩

end Progress

/-- A name that a reference stood for stands for itself. -/
theorem Means.again {model : Model} {package reference outcome : String} {rivals : List String}
    (coherent : model.Coherent) (means : Means model package reference outcome rivals) :
    model.resolution outcome package = ⟨outcome,[]⟩ := by
  have dotted {name : String} (dot : '.' ∈ name.toList) :
      model.resolution name package = ⟨name,[]⟩ := by
    rw [resolution,if_pos (by simpa using dot)]
  cases means with
  | dotted dot => exact dotted dot
  | own => exact dotted (by simp [qualify])
  | elsewhere => exact dotted (by simp [qualify])
  | unknown undotted foreign homes =>
    obtain ⟨others,lists,candidates⟩ := coherent.candidates_eq reference
    have alone : others = [] := List.eq_nil_iff_forall_not_mem.mpr fun other member =>
      List.not_mem_nil ((homes.mem_iff other).mpr ((lists.mem_iff other).mp member))
    have absent : model.units.contains (qualify package reference) ≠ true := fun known =>
      foreign (OrderedMap.contains_iff.mp known)
    rw [resolution,if_neg (by simpa using undotted),if_neg absent,candidates,alone]
    rfl

theorem resolveReference_settled {model other : Model} {package outcome : String}
    (keys : other.units.keys = model.units.keys) (packages : other.packages = model.packages)
    (again : model.resolution outcome package = ⟨outcome,[]⟩) (owner : Option String) :
    other.resolveReference outcome package owner = (outcome,other) := by
  rw [resolveReference,resolution_congr keys packages,again]
  cases owner <;> rfl

theorem superclasses_settled (extractions : List Extraction) :
    ∃ built resolved, ({} : Model).addAll extractions = .ok built ∧ built.resolve = .ok resolved ∧
      (∀ name unit reference, built.units.get? name = some unit →
        unit.superclass = some reference →
        ∃ outcome rivals, Means built unit.package reference outcome rivals ∧
          (∃ settled, resolved.units.get? name = some settled ∧
            settled.superclass = some outcome) ∧
          resolved.ambiguities.get? name = (if rivals = [] then none else some rivals) ∧
          (∀ before : List String, before.Nodup → name ∉ before →
            (∃ settled,
              ((before.foldl resolveUnit built).resolveUnit name).units.get? name = some settled ∧
                settled.superclass = some outcome) ∧
            ((before.foldl resolveUnit built).resolveUnit name).ambiguities.get? name =
              if rivals = [] then none else some rivals) ∧
          ∀ owner, resolved.resolveReference outcome unit.package owner = (outcome,resolved)) ∧
      (∀ name unit, built.units.get? name = some unit → unit.superclass = none →
        (∃ settled, resolved.units.get? name = some settled ∧ settled.superclass = none) ∧
          resolved.ambiguities.get? name = none) ∧
      resolved.ambiguities.keys.Sublist built.units.keys ∧
      resolved.warnings = built.warnings ++ resolved.ambiguities.entries.map fun entry =>
        ambiguityWarning entry.1 ((built.written entry.1).getD "") (entry.2.headD "") entry.2 := by
  obtain ⟨built,run,grown⟩ := @addAll_open {} rfl extractions
  have coherent := (grown.reachable .empty).coherent
  have distinct := built.units.nodup_keys
  have quiet : built.ambiguities = .empty := grown.ambiguities
  refine ⟨built,built.related,run,resolve_open grown.isOpen,?_,?_,?_,?_⟩
  · intro name unit reference found superclass
    have member := OrderedMap.mem_keys_of_get? found
    have reading := reading_of_written found superclass
    have means := coherent.means_resolution reference unit.package
    refine ⟨_,_,means,?_,?_,?_,?_⟩
    · rw [related_eq coherent]
      exact superclass_progress_read member found reading
    · rw [related_eq coherent]
      exact get?_ambiguities_read quiet distinct member reading
    · intro before apart fresh
      have extended : (before ++ [name]).Nodup := by
        rw [List.nodup_append]
        refine ⟨apart,List.nodup_singleton name,?_⟩
        rintro other inside last single rfl
        exact fresh (List.mem_singleton.mp single ▸ inside)
      have last : name ∈ before ++ [name] := by simp
      -- Whatever units came first, what is read of this one is read from the built model.
      rw [resolveUnits_eq_progress coherent apart,resolveUnit_progress coherent fresh]
      exact ⟨superclass_progress_read last found reading,
        get?_ambiguities_read quiet extended last reading⟩
    · intro owner
      rw [related_eq coherent]
      apply resolveReference_settled _ _ (means.again coherent)
      · exact keys_progress built built.units.keys
      · exact packages_noteReadings built built built.units.keys
  · intro name unit found superclass
    have member := OrderedMap.mem_keys_of_get? found
    have unread : built.reading name = none := by
      rw [reading,found,Option.bind_some,superclass,Option.map_none]
    rw [related_eq coherent]
    refine ⟨?_,?_⟩
    · obtain ⟨settled,place,same⟩ := superclass_progress member found
      exact ⟨settled,place,by rw [same,superclassOf,unread,Option.map_none]⟩
    · rw [Option.eq_none_iff_forall_ne_some]
      intro rivals noted
      obtain ⟨_,_,read,reading,_⟩ := (get?_ambiguities quiet distinct).mp noted
      rw [unread] at reading
      cases reading
  · rw [related_eq coherent,OrderedMap.keys]
    dsimp only
    rw [entries_ambiguities quiet distinct,List.map_map]
    exact disputes_sublist built built.units.keys
  · have notes := @notes_eq_disputes built built built.units.keys (by rwa [quiet])
    rw [related_eq coherent]
    dsimp only
    rw [entries_ambiguities quiet distinct,progress,notes.2,List.map_map]
    congr 1
    apply List.map_congr_left
    rintro ⟨name,read⟩ dispute
    obtain ⟨_,reading,several⟩ := mem_disputes.mp dispute
    rw [Function.comp_apply,written_of_reading reading,headD_reading reading several]
    rfl

end JavaAtlas.Model
