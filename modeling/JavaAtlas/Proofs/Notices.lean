import JavaAtlas.Proofs.Figures

/-! Warnings of a list of files. A file costs one warning at most, which is settled by the files
before it, and no warning has a part in what is merged or resolved after it; so a file that gives
the model nothing adds its warning to the others and changes nothing else. -/
namespace JavaAtlas

namespace Model
variable {model : Model} {warnings : List String}

/-- The model with other warnings before its own. -/
def preceded (warnings : List String) (model : Model) : Model :=
  {model with warnings := warnings ++ model.warnings}

/-- The model with no warnings. -/
def quiet (model : Model) : Model := {model with warnings := []}

theorem units_preceded : (preceded warnings model).units = model.units := rfl

theorem preceded_quiet (model : Model) : preceded model.warnings model.quiet = model := by
  rw [preceded,quiet,List.append_nil]

theorem warn_eq (model : Model) (warning : String) :
    model.warn warning = preceded (model.warnings ++ [warning]) model.quiet := by
  rw [preceded,quiet,List.append_nil,warn]

theorem note_preceded (owner reference : String) (resolution : Resolution) :
    (preceded warnings model).note owner reference resolution =
      preceded warnings (model.note owner reference resolution) := by
  unfold note
  split
  · rfl
  · rw [warn,warn,preceded,preceded]
    simp only [List.append_assoc]

theorem link_preceded (child parent : String) :
    (preceded warnings model).link child parent = preceded warnings (model.link child parent) := by
  unfold link
  rw [units_preceded]
  cases model.units.get? parent with
  | none => rfl
  | some unit =>
    dsimp only
    split <;> rfl

theorem put_preceded (name : String) (unit : CompilationUnit) :
    (preceded warnings model).put name unit = preceded warnings (model.put name unit) := rfl

theorem resolveUnit_preceded (name : String) :
    (preceded warnings model).resolveUnit name = preceded warnings (model.resolveUnit name) := by
  cases found : model.units.get? name with
  | none =>
    rw [resolveUnit,units_preceded,found,resolveUnit,found]
  | some unit =>
    have same : (preceded warnings model).units.get? name = some unit := by rw [units_preceded,found]
    cases written : unit.superclass with
    | none =>
      rw [resolveUnit,same,resolveUnit,found]
      simp only [written]
    | some reference =>
      have resolution : (preceded warnings model).resolution reference unit.package =
          model.resolution reference unit.package := resolution_congr rfl rfl _ _
      rw [resolveUnit_written same written,resolveUnit_written found written]
      dsimp only
      rw [resolution,note_preceded,put_preceded]
      split
      · rfl
      · exact link_preceded _ _

theorem related_preceded (warnings : List String) (model : Model) :
    (preceded warnings model).related = preceded warnings model.related := by
  have units (names : List String) (model : Model) : names.foldl resolveUnit (preceded warnings model) =
      preceded warnings (names.foldl resolveUnit model) := by
    induction names generalizing model with
    | nil => rfl
    | cons name rest ih => rw [List.foldl_cons,resolveUnit_preceded,ih,List.foldl_cons]
  change {model.units.keys.foldl resolveUnit (preceded warnings model) with resolved := true} = _
  rw [units]
  rfl

end Model

namespace Analysis
variable {disk : Disk} {here : Place} {model : Model} {front back : List Path} {path : Path}

/-- The model of the files before its references are resolved. -/
def merged (disk : Disk) (here : Place) (paths : List Path) : Model :=
  paths.foldl (merge disk here) {}

/-- The unit that a file gives, if it has the name. -/
def unitNamed? (disk : Disk) (here : Place) (name : String) (path : Path) :
    Option CompilationUnit :=
  match readSource disk here path with
  | .ok (some extraction) =>
    if extraction.unit.qualifiedName = name then some extraction.unit else none
  | _ => none

/-- The warning that a file costs after some others: it cannot be read, or gives a unit under the
name of an earlier one, the first of which stays. -/
def notice? (disk : Disk) (here : Place) (earlier : List Path) (path : Path) : Option String :=
  match readSource disk here path with
  | .error fault => some ("Failed to read " ++ path.text ++ ": " ++ fault.message)
  | .ok none => none
  | .ok (some extraction) =>
    (earlier.findSome? (unitNamed? disk here extraction.unit.qualifiedName)).map
      (Model.duplicateWarning extraction.unit)

/-- The warnings that files cost after earlier ones, in the order of the files. -/
def notices (disk : Disk) (here : Place) : List Path → List Path → List String
  | _, [] => []
  | earlier, path :: rest =>
    (notice? disk here earlier path).toList ++ notices disk here (earlier ++ [path]) rest

/-- What becomes of an open model when a file is merged. -/
theorem merge_eq (isOpen : model.resolved = false) (path : Path) : merge disk here model path =
    match readSource disk here path with
    | .error fault => model.warn ("Failed to read " ++ path.text ++ ": " ++ fault.message)
    | .ok none => model
    | .ok (some extraction) =>
      match model.units.get? extraction.unit.qualifiedName with
      | some known => model.warn (Model.duplicateWarning extraction.unit known)
      | none => model.merged extraction := by
  rw [merge]
  cases readSource disk here path with
  | error fault => rfl
  | ok found =>
    cases found with
    | none => rfl
    | some extraction =>
      dsimp only
      rw [Model.add,Model.Change.outcome,Model.Change.run_add,isOpen,if_neg Bool.false_ne_true]
      cases model.units.get? extraction.unit.qualifiedName <;> rfl

theorem merge_preceded (isOpen : model.resolved = false) (warnings : List String) (path : Path) :
    merge disk here (Model.preceded warnings model) path =
      Model.preceded warnings (merge disk here model path) := by
  have stillOpen : (Model.preceded warnings model).resolved = false := isOpen
  rw [merge_eq stillOpen,merge_eq isOpen]
  cases readSource disk here path with
  | error fault => exact congrArg (fun all => {model with warnings := all}) (List.append_assoc _ _ _)
  | ok found =>
    cases found with
    | none => rfl
    | some extraction =>
      have units : (Model.preceded warnings model).units = model.units := rfl
      dsimp only
      rw [units]
      cases model.units.get? extraction.unit.qualifiedName with
      | none => rfl
      | some known => exact congrArg (fun all => {model with warnings := all}) (List.append_assoc _ _ _)

theorem resolved_merge (isOpen : model.resolved = false) (path : Path) :
    (merge disk here model path).resolved = false :=
  (@mem_keys_merge disk here model "" isOpen path).1

theorem foldl_merge_preceded (isOpen : model.resolved = false) (warnings : List String)
    (paths : List Path) :
    paths.foldl (merge disk here) (Model.preceded warnings model) =
      Model.preceded warnings (paths.foldl (merge disk here) model) := by
  induction paths generalizing model with
  | nil => rfl
  | cons path rest ih =>
    rw [List.foldl_cons,merge_preceded isOpen,ih (resolved_merge isOpen path),List.foldl_cons]

theorem merged_concat (disk : Disk) (here : Place) (paths : List Path) (path : Path) :
    merged disk here (paths ++ [path]) = merge disk here (merged disk here paths) path := by
  rw [merged,List.foldl_append]
  rfl

theorem resolved_merged (disk : Disk) (here : Place) (paths : List Path) :
    (merged disk here paths).resolved = false :=
  (merged_open disk here paths).2

/-- Of the units with a name that are read, the model has the first. -/
theorem get?_merged (disk : Disk) (here : Place) (paths : List Path) (name : String) :
    (merged disk here paths).units.get? name = paths.findSome? (unitNamed? disk here name) := by
  induction paths using List.reverseRecOn with
  | nil => rfl
  | append_singleton paths path ih =>
    rw [merged_concat,merge_eq (resolved_merged disk here paths),List.findSome?_append,← ih,
      List.findSome?_singleton,unitNamed?]
    cases readSource disk here path with
    | error fault => exact (Option.or_none).symm
    | ok found =>
      cases found with
      | none => exact (Option.or_none).symm
      | some extraction =>
        dsimp only
        cases known : (merged disk here paths).units.get? extraction.unit.qualifiedName with
        | some unit =>
          dsimp only
          by_cases same : extraction.unit.qualifiedName = name
          · rw [if_pos same,← same,known,Option.some_or]
            exact known
          · rw [if_neg same,Option.or_none]
            rfl
        | none =>
          dsimp only
          change (((merged disk here paths).units.insert _ _).get? name) = _
          rw [OrderedMap.get?_insert]
          by_cases same : extraction.unit.qualifiedName = name
          · rw [if_pos same.symm,if_pos same,← same,known,Option.none_or]
          · rw [if_neg (Ne.symm same),if_neg same,Option.or_none]

theorem warnings_merge (disk : Disk) (here : Place) (earlier : List Path) (path : Path) :
    (merge disk here (merged disk here earlier) path).warnings =
      (merged disk here earlier).warnings ++ (notice? disk here earlier path).toList := by
  rw [merge_eq (resolved_merged disk here earlier),notice?]
  cases readSource disk here path with
  | error fault => rfl
  | ok found =>
    cases found with
    | none => exact (List.append_nil _).symm
    | some extraction =>
      dsimp only
      rw [← get?_merged]
      cases (merged disk here earlier).units.get? extraction.unit.qualifiedName with
      | none => exact (List.append_nil _).symm
      | some known => rfl

theorem warnings_foldl_merge (disk : Disk) (here : Place) (earlier rest : List Path) :
    (rest.foldl (merge disk here) (merged disk here earlier)).warnings =
      (merged disk here earlier).warnings ++ notices disk here earlier rest := by
  induction rest generalizing earlier with
  | nil => exact (List.append_nil _).symm
  | cons path rest ih =>
    rw [List.foldl_cons,← merged_concat,ih,merged_concat,warnings_merge,notices,List.append_assoc]

/-- Before references are resolved there are the notices of the files, in their order. -/
theorem warnings_merged (disk : Disk) (here : Place) (front back : List Path) :
    (merged disk here (front ++ back)).warnings =
      notices disk here [] front ++ notices disk here front back := by
  have whole := warnings_foldl_merge disk here front back
  rw [merged,List.foldl_append]
  refine whole.trans (congrArg (· ++ _) ?_)
  exact warnings_foldl_merge disk here [] front

/-- The file cannot be read, or gives a unit under the name of one of the earlier ones. -/
def Spoiled (disk : Disk) (here : Place) (earlier : List Path) (path : Path) : Prop :=
  (∃ fault, disk.read here path = .error fault ∧ fault.cause ≠ .nullCharacter) ∨
    ∃ name, unitName? disk here path = some name ∧
      ∃ other ∈ earlier, unitName? disk here other = some name

theorem unitName?_eq_some {name : String} : unitName? disk here path = some name ↔
    ∃ extraction, readSource disk here path = .ok (some extraction) ∧
      extraction.unit.qualifiedName = name := by
  rw [unitName?]
  cases readSource disk here path with
  | error fault => simp
  | ok found => cases found <;> simp

theorem merge_spoiled (spoiled : Spoiled disk here front path) :
    ∃ warning, notice? disk here front path = some warning ∧
      merge disk here (merged disk here front) path = (merged disk here front).warn warning := by
  rcases spoiled with ⟨fault,unread,_⟩ | ⟨name,named,other,member,known⟩
  · have source : readSource disk here path = .error fault := by rw [readSource,unread]; rfl
    exact ⟨_,by rw [notice?,source],by rw [merge,source]⟩
  · obtain ⟨extraction,source,rfl⟩ := unitName?_eq_some.mp named
    have inside : extraction.unit.qualifiedName ∈ (merged disk here front).units.keys :=
      (mem_keys_merged rfl front).2.mpr (.inr (List.mem_filterMap.mpr ⟨other,member,known⟩))
    obtain ⟨unit,found⟩ := OrderedMap.exists_of_mem_keys inside
    refine ⟨Model.duplicateWarning extraction.unit unit,?_,?_⟩
    · rw [notice?,source]
      dsimp only
      rw [← get?_merged,found,Option.map_some]
    · rw [merge_eq (resolved_merged disk here front),source]
      dsimp only
      rw [found]

theorem hasNull_of_read {bytes : List UInt8} (found : disk.read here path = .ok bytes) :
    path.hasNull = false := by
  obtain ⟨place,reached,_⟩ := Disk.read_iff.mp found
  exact (Disk.locate_iff.mp reached).1

theorem hasNull_of_spoiled (spoiled : Spoiled disk here front path) : path.hasNull = false := by
  rcases spoiled with ⟨fault,unread,other⟩ | ⟨name,named,_⟩
  · by_contra null
    rw [Bool.not_eq_false] at null
    rw [Disk.read,Disk.locate,if_pos null] at unread
    cases unread
    exact other rfl
  · obtain ⟨extraction,source,_⟩ := unitName?_eq_some.mp named
    cases found : disk.read here path with
    | error fault =>
      rw [readSource,found] at source
      cases source
    | ok bytes => exact hasNull_of_read found

/-- A path without a null character decides nothing about whether the files can be asked for. -/
theorem ofPaths_insert (clean : path.hasNull = false) (front back : List Path) :
    (∃ other ∈ front ++ back, other.hasNull = true ∧
      ofPaths disk here (front ++ back) = .error ⟨.nullCharacter,other⟩ ∧
      ofPaths disk here (front ++ path :: back) = .error ⟨.nullCharacter,other⟩) ∨
    (ofPaths disk here (front ++ back) = .ok (ofFiles disk here (front ++ back)) ∧
      ofPaths disk here (front ++ path :: back) =
        .ok (ofFiles disk here (front ++ path :: back))) := by
  have same : (front ++ path :: back).find? Path.hasNull =
      (front ++ back).find? Path.hasNull := by
    rw [List.find?_append,List.find?_append,List.find?_cons_of_neg (by simp [clean])]
  rw [ofPaths,ofPaths,same]
  cases found : (front ++ back).find? Path.hasNull with
  | none => exact .inr ⟨rfl,rfl⟩
  | some other => exact .inl ⟨other,List.mem_of_find?_eq_some found,List.find?_some found,rfl,rfl⟩

theorem related_merged (disk : Disk) (here : Place) (paths : List Path) :
    (merged disk here paths).related = ofFiles disk here paths :=
  (ofFiles_eq disk here paths).symm

theorem resolve_merged (disk : Disk) (here : Place) (paths : List Path) :
    (merged disk here paths).resolve = .ok (ofFiles disk here paths) := by
  rw [Model.resolve_open (resolved_merged disk here paths),related_merged]

/-- The warning of a file that gives the model nothing stands between those of the files before
it and those of the files after it. -/
theorem ofFiles_insert {warning : String}
    (costs : merge disk here (merged disk here front) path =
      (merged disk here front).warn warning) :
    ∃ resolver,
      (ofFiles disk here (front ++ back)).warnings =
        notices disk here [] front ++ notices disk here front back ++ resolver ∧
      ofFiles disk here (front ++ path :: back) = {ofFiles disk here (front ++ back) with
        warnings := notices disk here [] front ++ warning :: notices disk here front back ++
          resolver} := by
  let start := (merged disk here front).quiet
  let grown := back.foldl (merge disk here) start
  have isOpen : start.resolved = false := resolved_merged disk here front
  have first : (merged disk here front).warnings = notices disk here [] front :=
    warnings_foldl_merge disk here [] front
  have shorter : merged disk here (front ++ back) =
      Model.preceded (notices disk here [] front) grown := by
    rw [merged,List.foldl_append,← foldl_merge_preceded isOpen,← first,Model.preceded_quiet]
    rfl
  have longer : merged disk here (front ++ path :: back) =
      Model.preceded (notices disk here [] front ++ [warning]) grown := by
    rw [merged,List.foldl_append,List.foldl_cons,← foldl_merge_preceded isOpen,← first,
      ← Model.warn_eq]
    exact congrArg (back.foldl (merge disk here)) costs
  have later : grown.warnings = notices disk here front back := by
    have both := warnings_merged disk here front back
    rw [shorter] at both
    exact List.append_cancel_left both
  -- What the resolver adds does not depend on what it finds there.
  have related := Model.related_preceded grown.warnings grown.quiet
  rw [Model.preceded_quiet,later] at related
  refine ⟨grown.quiet.related.warnings,?_,?_⟩
  · rw [← related_merged,shorter,Model.related_preceded,related,Model.preceded,Model.preceded,
      List.append_assoc]
  · rw [← related_merged,← related_merged,longer,shorter,Model.related_preceded,
      Model.related_preceded,related]
    simp only [Model.preceded,List.append_assoc,List.cons_append,List.nil_append]

/-- A file that cannot be read, or whose unit comes too late, costs one warning, where it stands
among the files and before all that the references cost; of the model nothing else tells whether
the file is there. A file of no known language costs nothing. -/
theorem bad_file_costs_warning (disk : Disk) (here : Place) (front back : List Path)
    (path : Path) :
    (Spoiled disk here front path → ∃ warning, notice? disk here front path = some warning ∧
      ((∃ other ∈ front ++ back, other.hasNull = true ∧
        ofPaths disk here (front ++ back) = .error ⟨.nullCharacter,other⟩ ∧
        ofPaths disk here (front ++ path :: back) = .error ⟨.nullCharacter,other⟩) ∨
      ∃ model resolver, ofPaths disk here (front ++ back) = .ok model ∧
        (merged disk here (front ++ back)).resolve = .ok model ∧
        (merged disk here (front ++ back)).warnings =
          notices disk here [] front ++ notices disk here front back ∧
        model.warnings = notices disk here [] front ++ notices disk here front back ++ resolver ∧
        ofPaths disk here (front ++ path :: back) = .ok {model with
          warnings := notices disk here [] front ++ warning :: notices disk here front back ++
            resolver})) ∧
    (∀ bytes, disk.read here path = .ok bytes →
      Discovery.languageOf? (Path.suffix path.name) = none →
      ofPaths disk here (front ++ path :: back) = ofPaths disk here (front ++ back)) := by
  refine ⟨?_,?_⟩
  · intro spoiled
    obtain ⟨warning,noticed,costs⟩ := merge_spoiled spoiled
    refine ⟨warning,noticed,?_⟩
    rcases ofPaths_insert (hasNull_of_spoiled spoiled) front back with refused | ⟨short,long⟩
    · exact .inl refused
    · obtain ⟨resolver,warnings,longer⟩ := @ofFiles_insert _ _ _ back _ _ costs
      refine .inr ⟨_,resolver,short,resolve_merged disk here _,warnings_merged disk here front back,
        warnings,?_⟩
      rw [long,longer]
  · intro bytes found unknown
    have skips (model : Model) : merge disk here model path = model := by
      rw [merge,readSource,found]
      simp only [Except.map,unknown,Option.bind_none]
    have same : ofFiles disk here (front ++ path :: back) = ofFiles disk here (front ++ back) := by
      rw [ofFiles_eq,ofFiles_eq,List.foldl_append,List.foldl_cons,skips,List.foldl_append]
    rcases ofPaths_insert (hasNull_of_read found) front back with ⟨_,_,_,short,long⟩ | ⟨short,long⟩
    · rw [short,long]
    · rw [short,long,same]

/-- A second file with the type of the first, and a file that is no source, before one that is
missing. -/
theorem bad_file_costs_warning_late :
    let source := Node.file (Text.Utf8.encode "package p; class A {}".toList)
    let disk : Disk := {nodes := .ofList [(["a"],.directory),(["a","A.java"],source),
      (["b"],.directory),(["b","A.java"],source),(["b","notes.txt"],source)]}
    let files (between : List Path) := [⟨0,["a","A.java"]⟩] ++ (between ++ [⟨0,["c","C.java"]⟩])
    let late : Path := ⟨0,["b","A.java"]⟩
    Spoiled disk [] [⟨0,["a","A.java"]⟩] late ∧
      (∃ model, ofPaths disk [] (files []) = .ok model ∧
        ofPaths disk [] (files [late]) = .ok {model with warnings :=
          "Duplicate class p.A in b/A.java; keeping a/A.java" :: model.warnings}) ∧
      ofPaths disk [] (files [⟨0,["b","notes.txt"]⟩]) = ofPaths disk [] (files []) := by
  intro source disk files late
  have spoiled : Spoiled disk [] [⟨0,["a","A.java"]⟩] late :=
    .inr ⟨"p.A",by decide +kernel,_,List.mem_singleton_self _,by decide +kernel⟩
  have clean : ∀ path ∈ files [], path.hasNull = false := by decide +kernel
  have silent : notices disk [] [] [⟨0,["a","A.java"]⟩] = [] := by decide +kernel
  have notice : notice? disk [] [⟨0,["a","A.java"]⟩] late =
      some "Duplicate class p.A in b/A.java; keeping a/A.java" := by decide +kernel
  obtain ⟨warning,noticed,outcome⟩ :=
    (bad_file_costs_warning disk [] [⟨0,["a","A.java"]⟩] [⟨0,["c","C.java"]⟩] late).1 spoiled
  cases notice.symm.trans noticed
  refine ⟨spoiled,?_,?_⟩
  · rcases outcome with ⟨other,member,null,_⟩ | ⟨model,resolver,short,_,_,warnings,long⟩
    · rw [clean other member] at null
      cases null
    · rw [silent] at warnings long
      refine ⟨model,short,long.trans ?_⟩
      rw [warnings]
      rfl
  · exact (bad_file_costs_warning disk [] [⟨0,["a","A.java"]⟩] [⟨0,["c","C.java"]⟩] _).2 _
      rfl (by decide +kernel)

end Analysis

end JavaAtlas
