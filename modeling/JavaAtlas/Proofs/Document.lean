import JavaAtlas.Model.Document
import JavaAtlas.Proofs.Coherence

/-! Reading gives back what was written: record by record, from the innermost out, and last for
whole models, whose index is not written but follows from the units. -/
namespace JavaAtlas

namespace Json

theorem ok_of_bind {α β : Type} {first : Except Mismatch α} {next : α → Except Mismatch β}
    {result : β} (done : first >>= next = .ok result) :
    ∃ value, first = .ok value ∧ next value = .ok result := by
  cases first with
  | error mismatch => cases done
  | ok value => exact ⟨value,rfl,done⟩

theorem mapM_map {α β : Type} (encode : α → β) (decode : β → Except Mismatch α)
    (inverse : ∀ item, decode (encode item) = .ok item) (items : List α) :
    (items.map encode).mapM decode = .ok items := by
  induction items with
  | nil => rfl
  | cons item rest ih =>
    rw [List.map_cons,List.mapM_cons,inverse,ih]
    rfl

theorem asTextOrNull_ofOption (text : Option String) : (ofOption text).asTextOrNull = .ok text := by
  cases text <;> rfl

theorem eq_bool_of_asFlag {flag : Bool} {found : Except Mismatch Json}
    (read : (found.bind asFlag).toOption = some flag) : found = .ok (.bool flag) := by
  cases found with
  | error mismatch => cases read
  | ok value =>
    cases value with
    | bool other =>
      cases read
      rfl
    | _ => cases read

theorem asTexts_strings (texts : List String) : (strings texts).asTexts = .ok texts := by
  change (texts.map Json.str).mapM asText = .ok texts
  exact mapM_map Json.str asText (fun _ => rfl) texts

theorem asTextLists_stringLists (map : OrderedMap String (List String)) :
    (stringLists map).asTextLists = .ok map := by
  have field (entry : String × List String) :
      (do return (entry.1,← (strings entry.2).asTexts) : Except Mismatch _) = .ok entry := by
    rw [asTexts_strings]
    rfl
  have read := mapM_map (fun entry : String × List String => (entry.1,strings entry.2))
    (fun field => do return (field.1,← field.2.asTexts)) field map.entries
  have built : (stringLists map).asTextLists = .ok (.ofList map.entries) := by
    unfold asTextLists stringLists items
    simp only [bind,Except.bind] at read ⊢
    rw [read]
    rfl
  rw [built,OrderedMap.ofList_entries]

end Json

theorem AnnotationUse.ofJson_toJson (mark : AnnotationUse) :
    AnnotationUse.ofJson mark.toJson = .ok mark := by
  obtain ⟨name,arguments⟩ := mark
  change (Json.ofOption arguments).asTextOrNull.bind _ = _
  rw [Json.asTextOrNull_ofOption]
  rfl

theorem Method.ofJson_toJson (method : Method) : Method.ofJson method.toJson = .ok method := by
  obtain ⟨name,signature,javadoc,annotations,summary⟩ := method
  change ((annotations.map AnnotationUse.toJson).mapM AnnotationUse.ofJson).bind _ = _
  rw [Json.mapM_map _ _ AnnotationUse.ofJson_toJson]
  rfl

theorem CompilationUnit.ofJson_toJson (unit : CompilationUnit) :
    CompilationUnit.ofJson unit.toJson = .ok unit := by
  obtain ⟨name,package,file,superclass,interfaces,methods,isInterface,isAbstract,isRestResource,
    subclasses⟩ := unit
  change (Json.ofOption superclass).asTextOrNull.bind _ = _
  rw [Json.asTextOrNull_ofOption]
  change (Json.strings interfaces).asTexts.bind _ = _
  rw [Json.asTexts_strings]
  change ((methods.map Method.toJson).mapM Method.ofJson).bind _ = _
  rw [Json.mapM_map _ _ Method.ofJson_toJson]
  change (Json.strings subclasses).asTexts.bind _ = _
  rw [Json.asTexts_strings]
  rfl

theorem Endpoint.ofJson_toJson (endpoint : Endpoint) :
    Endpoint.ofJson endpoint.toJson = .ok endpoint := by
  obtain ⟨httpMethod,path,methodName,className,package,consumes,produces⟩ := endpoint
  change (Json.ofOption consumes).asTextOrNull.bind _ = _
  rw [Json.asTextOrNull_ofOption]
  change (Json.ofOption produces).asTextOrNull.bind _ = _
  rw [Json.asTextOrNull_ofOption]
  rfl

namespace Model

theorem coherent_enterAll {model : Model} (coherent : model.Coherent)
    {units : List CompilationUnit}
    (distinct : (model.units.keys ++ units.map CompilationUnit.qualifiedName).Nodup) :
    (units.foldl enter model).Coherent ∧
      (units.foldl enter model).units.entries =
        model.units.entries ++ units.map fun unit => (unit.qualifiedName,unit) := by
  induction units generalizing model with
  | nil => exact ⟨coherent,by simp⟩
  | cons unit rest ih =>
    have absent : unit.qualifiedName ∉ model.units.keys := by
      intro member
      exact (List.nodup_append.mp distinct).2.2 _ member _ (by simp) rfl
    have entries : (model.enter unit).units.entries =
        model.units.entries ++ [(unit.qualifiedName,unit)] :=
      OrderedMap.entries_insert_of_not_mem absent unit
    have keys : (model.enter unit).units.keys = model.units.keys ++ [unit.qualifiedName] := by
      simp [OrderedMap.keys,entries]
    obtain ⟨last,all⟩ := ih (coherent.enter absent) (by simpa [keys] using distinct)
    exact ⟨last,by rw [List.foldl_cons,all,entries]; simp⟩

/-- The units alone fix the index. -/
theorem Coherent.packages_eq {first second : Model} (one : first.Coherent) (two : second.Coherent)
    (same : first.units = second.units) : first.packages = second.packages := by
  have keys : first.packages.keys = second.packages.keys := by
    rw [one.packages,two.packages,same]
  apply OrderedMap.ext_get? keys
  intro package member
  rw [one.members package member,two.members package (keys ▸ member),same]

theorem Coherent.entries_eq {model : Model} (coherent : model.Coherent) :
    model.units.values.map (fun unit => (unit.qualifiedName,unit)) = model.units.entries := by
  rw [OrderedMap.values,List.map_map]
  refine (List.map_congr_left ?_).trans (List.map_id _)
  intro entry member
  exact Prod.ext (coherent.keyed entry member).symm rfl

theorem enterAll_values {model : Model} (coherent : model.Coherent) :
    (model.units.values.foldl enter {}).units = model.units ∧
      (model.units.values.foldl enter {}).packages = model.packages := by
  obtain ⟨built,entries⟩ := coherent_enterAll coherent_empty coherent.nodup_qualifiedNames
  have units : (model.units.values.foldl enter {}).units = model.units := by
    apply OrderedMap.ext
    rw [entries,coherent.entries_eq]
    rfl
  exact ⟨units,built.packages_eq coherent units⟩

theorem ofJson_toJson {model : Model} (coherent : model.Coherent) :
    Model.ofJson model.toJson = .ok model := by
  obtain ⟨units,packages⟩ := enterAll_values coherent
  obtain ⟨unitMap,packageMap,endpoints,enums,warnings,ambiguities,resolved⟩ := model
  change ((unitMap.values.map CompilationUnit.toJson).mapM CompilationUnit.ofJson).bind _ = _
  rw [Json.mapM_map _ _ CompilationUnit.ofJson_toJson]
  change ((endpoints.map Endpoint.toJson).mapM Endpoint.ofJson).bind _ = _
  rw [Json.mapM_map _ _ Endpoint.ofJson_toJson]
  change (Json.stringLists enums).asTextLists.bind _ = _
  rw [Json.asTextLists_stringLists]
  change (Json.strings warnings).asTexts.bind _ = _
  rw [Json.asTexts_strings]
  change (Json.stringLists ambiguities).asTextLists.bind _ = _
  rw [Json.asTextLists_stringLists]
  change Except.ok (Model.mk _ _ _ _ _ _ _) = _
  rw [units,packages]

end Model

end JavaAtlas
