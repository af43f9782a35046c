import JavaAtlas.Proofs.Comments
import JavaAtlas.Proofs.Ownership
import JavaAtlas.Proofs.Sites
import JavaAtlas.Proofs.Trimming
import JavaAtlas.Report.Page

/-! Rows of a table, read back. A row is one line that is cut at its bars, except those behind a
backslash. Values are shown as they are, so a row gives back just those that are fit for a cell. -/
namespace JavaAtlas.Report
variable {text front rest : List Char} {texts : List (List Char)} {shielded : Bool}

/-- The pieces between the bars of a text. The flag tells that the character in front of it is a
backslash, which shields a bar. -/
def cellsFrom : Bool → List Char → List (List Char)
  | _, [] => [[]]
  | shielded, c :: rest =>
    if c == '|' && !shielded then [] :: cellsFrom false rest
    else (cellsFrom (c == '\\') rest).modifyHead (c :: ·)

def endsLine (c : Char) : Bool := c == '\n' || c == '\r'

/-- A text that can be shown in a cell and be found there again. -/
structure IsCell (text : List Char) : Prop where
  oneLine : ∀ c ∈ text, endsLine c = false
  trimmed : Text.trim text = text
  barred : ∀ front rest, text = front ++ '|' :: rest → front.getLast? = some '\\'

/-- The row is one line, and its cells give back the texts. -/
structure ReadsBack (texts : List (List Char)) (row : List Char) : Prop where
  oneLine : ∀ c ∈ row, endsLine c = false
  cells : ∃ inner, cellsFrom false row = [] :: (inner ++ [[]]) ∧ inner.map Text.trim = texts

/-- A text in its cell. -/
def padded (text : List Char) : List Char := ' ' :: (text ++ [' '])

def tableRow (texts : List (List Char)) : List Char :=
  '|' :: texts.flatMap fun text => padded text ++ ['|']

section Cells

theorem cellsFrom_ne_nil (shielded : Bool) (text : List Char) : cellsFrom shielded text ≠ [] := by
  induction text generalizing shielded with
  | nil => exact List.cons_ne_nil _ _
  | cons c rest ih =>
    rw [cellsFrom]
    split
    · exact List.cons_ne_nil _ _
    · rw [ne_eq,List.modifyHead_eq_nil_iff]
      exact ih _

/-- A bar behind a space parts what is in front from what follows. -/
theorem cellsFrom_spaced (shielded : Bool) (front rest : List Char) :
    cellsFrom shielded (front ++ ' ' :: '|' :: rest) =
      cellsFrom shielded (front ++ [' ']) ++ cellsFrom false rest := by
  induction front generalizing shielded with
  | nil => rfl
  | cons c front ih =>
    obtain ⟨first,others,shape⟩ :=
      List.exists_cons_of_ne_nil (cellsFrom_ne_nil (c == '\\') (front ++ [' ']))
    rw [List.cons_append,cellsFrom,ih,ih,List.cons_append,cellsFrom,shape]
    split <;> rfl

theorem eq_of_length_cellsFrom (one : (cellsFrom shielded text).length = 1) :
    cellsFrom shielded text = [text] := by
  induction text generalizing shielded with
  | nil => rfl
  | cons c text ih =>
    have filled := List.length_pos_iff.mpr (cellsFrom_ne_nil false text)
    rw [cellsFrom] at one ⊢
    split at one
    · rw [List.length_cons] at one
      omega
    · next other =>
      rw [List.length_modifyHead] at one
      rw [if_neg other,ih one]
      rfl

/-- Whether a bar behind the text would be shielded. -/
def shields (shielded : Bool) (front : List Char) : Bool :=
  (front.getLast?.map (· == '\\')).getD shielded

theorem shields_cons (shielded : Bool) (c : Char) (front : List Char) :
    shields shielded (c :: front) = shields (c == '\\') front := by
  rw [shields,shields,List.getLast?_cons]
  cases front.getLast? <;> rfl

/-- A text is one cell exactly if all its bars are shielded. -/
theorem length_cellsFrom_iff : (cellsFrom shielded text).length = 1 ↔
    ∀ front rest, text = front ++ '|' :: rest → shields shielded front = true := by
  induction text generalizing shielded with
  | nil => simp [cellsFrom]
  | cons c text ih =>
    have filled := List.length_pos_iff.mpr (cellsFrom_ne_nil false text)
    rw [cellsFrom]
    split
    · next bar =>
      rw [Bool.and_eq_true,beq_iff_eq,Bool.not_eq_true'] at bar
      obtain ⟨rfl,rfl⟩ := bar
      refine ⟨fun one => ?_,fun all => absurd (all [] text rfl) Bool.false_ne_true⟩
      rw [List.length_cons] at one
      omega
    · next other =>
      rw [List.length_modifyHead,ih]
      constructor
      · rintro all (_ | ⟨d,front⟩) rest shape
        · cases shape
          simpa [shields] using other
        · cases shape
          rw [shields_cons]
          exact all front rest rfl
      · rintro all front rest rfl
        rw [← shields_cons]
        exact all (c :: front) rest rfl

theorem shields_iff : shields false front = true ↔ front.getLast? = some '\\' := by
  rw [shields]
  cases front.getLast? <;> simp

theorem isCell_iff : IsCell text ↔ (∀ c ∈ text, endsLine c = false) ∧ Text.trim text = text ∧
    (cellsFrom false text).length = 1 := by
  rw [length_cellsFrom_iff]
  simp only [shields_iff]
  exact ⟨fun ⟨oneLine,trimmed,barred⟩ => ⟨oneLine,trimmed,barred⟩,
    fun ⟨oneLine,trimmed,barred⟩ => ⟨oneLine,trimmed,barred⟩⟩

instance : DecidablePred IsCell := fun _ => decidable_of_iff _ isCell_iff.symm

theorem trim_padded (text : List Char) : Text.trim (padded text) = Text.trim text := by
  have space : ∀ c ∈ [' '], Text.isBlank c = true := by decide
  exact Text.trim_padding space space text

theorem length_spaced (shielded : Bool) (text : List Char) :
    (cellsFrom shielded (text ++ [' '])).length = (cellsFrom shielded text).length := by
  induction text generalizing shielded with
  | nil => rfl
  | cons c text ih =>
    rw [List.cons_append,cellsFrom,cellsFrom]
    split
    · rw [List.length_cons,List.length_cons,ih]
    · rw [List.length_modifyHead,List.length_modifyHead,ih]

theorem length_padded (text : List Char) :
    (cellsFrom false (padded text)).length = (cellsFrom false text).length := by
  rw [← length_spaced false text]
  exact List.length_modifyHead

end Cells

section Rows

theorem cellsFrom_tableRow (texts : List (List Char)) : cellsFrom false (tableRow texts) =
    [] :: ((texts.flatMap fun text => cellsFrom false (padded text)) ++ [[]]) := by
  refine congrArg (List.cons []) ?_
  induction texts with
  | nil => rfl
  | cons text texts ih =>
    have parted := cellsFrom_spaced false (' ' :: text) (texts.flatMap fun text => padded text ++ ['|'])
    rw [ih] at parted
    rw [List.flatMap_cons,List.flatMap_cons,List.append_assoc (cellsFrom _ _)]
    refine Eq.trans (congrArg (cellsFrom false) ?_) parted
    simp [padded]

theorem length_le_flatMap {α β : Type} {pieces : α → List β} (filled : ∀ item, pieces item ≠ [])
    (items : List α) : items.length ≤ (items.flatMap pieces).length := by
  induction items with
  | nil => exact Nat.le_refl 0
  | cons item items ih =>
    have first := List.length_pos_iff.mpr (filled item)
    rw [List.flatMap_cons,List.length_append,List.length_cons]
    omega

/-- As many pieces as items, and some for each, is one for each. -/
theorem length_of_flatMap {α β : Type} {pieces : α → List β} (filled : ∀ item, pieces item ≠ [])
    {items : List α} (same : (items.flatMap pieces).length = items.length) :
    ∀ item ∈ items, (pieces item).length = 1 := by
  induction items with
  | nil => nofun
  | cons item items ih =>
    have first := List.length_pos_iff.mpr (filled item)
    have others := length_le_flatMap filled items
    rw [List.flatMap_cons,List.length_append,List.length_cons] at same
    rw [List.forall_mem_cons]
    exact ⟨by omega,ih (by omega)⟩

theorem flatMap_single {α β : Type} {pieces : α → List β} {piece : α → β} {items : List α}
    (single : ∀ item ∈ items, pieces item = [piece item]) :
    items.flatMap pieces = items.map piece := by
  rw [List.map_eq_flatMap]
  exact List.flatMap_congr single

theorem oneLine_tableRow : (∀ c ∈ tableRow texts, endsLine c = false) ↔
    ∀ text ∈ texts, ∀ c ∈ text, endsLine c = false := by
  have bar : endsLine '|' = false := by decide
  have space : endsLine ' ' = false := by decide
  simp only [tableRow,padded,List.cons_append,List.forall_mem_cons,List.forall_mem_flatMap,
    List.forall_mem_append,List.not_mem_nil,IsEmpty.forall_iff,implies_true,bar,space,true_and,
    and_true]

/-- A row gives back its texts exactly if each of them can be shown in a cell. -/
theorem readsBack_tableRow_iff :
    ReadsBack texts (tableRow texts) ↔ ∀ text ∈ texts, IsCell text := by
  constructor
  · rintro ⟨oneLine,inner,cut,back⟩
    rw [cellsFrom_tableRow,List.cons_inj_right,List.append_cancel_right_eq] at cut
    have length := congrArg List.length back
    rw [List.length_map,← cut] at length
    have single := length_of_flatMap (fun text => cellsFrom_ne_nil false (padded text)) length
    rw [← cut,flatMap_single fun text member => eq_of_length_cellsFrom (single text member),
      List.map_map] at back
    intro text member
    have trimmed := List.map_inj_left.mp (back.trans (List.map_id texts).symm) text member
    have whole := single text member
    rw [length_padded] at whole
    exact isCell_iff.mpr ⟨oneLine_tableRow.mp oneLine text member,
      (trim_padded text).symm.trans trimmed,whole⟩
  · intro all
    refine ⟨oneLine_tableRow.mpr fun text member => (all text member).oneLine,texts.map padded,?_,?_⟩
    · have single (text : List Char) (member : text ∈ texts) :
          cellsFrom false (padded text) = [padded text] :=
        eq_of_length_cellsFrom ((length_padded text).trans (isCell_iff.mp (all text member)).2.2)
      rw [cellsFrom_tableRow,flatMap_single single]
    · rw [List.map_map]
      refine (List.map_congr_left fun text member => ?_).trans (List.map_id texts)
      exact (trim_padded text).trans (all text member).trimmed

end Rows

theorem isCell_of_isWord (letters : ∀ c ∈ text, Text.isWord c = true) : IsCell text := by
  have solid : ∀ c ∈ text, Text.isBlank c = false := fun c member =>
    Text.isBlank_of_isWord (letters c member)
  refine ⟨fun c member => ?_,Text.trimWhile_of_forall solid,fun front rest shape => ?_⟩
  · rw [Bool.eq_false_iff]
    intro ends
    rw [endsLine,Bool.or_eq_true,beq_iff_eq,beq_iff_eq] at ends
    rcases ends with rfl | rfl
    · exact absurd (solid _ member) (by decide)
    · exact absurd (solid _ member) (by decide)
  · have bar := letters '|' (shape ▸ List.mem_append_right _ List.mem_cons_self)
    exact absurd bar (by decide)

section Endpoints
variable {content : List Char} {file language : String} {extraction : Extraction}
  {endpoint : Endpoint}

/-- What a row of the table shows of an operation. -/
def shownTexts (endpoint : Endpoint) : List (List Char) :=
  [endpoint.methodName,endpoint.path,endpoint.httpMethod,endpoint.consumes.getD "",
    endpoint.produces.getD ""].map String.toList

theorem toList_endpointRow (endpoint : Endpoint) :
    (endpointRow endpoint).toList = tableRow (shownTexts endpoint) := by
  unfold endpointRow
  simp only [String.toList_append]
  change ['|',' '] ++ endpoint.methodName.toList ++ [' ','|',' '] ++ endpoint.path.toList ++
    [' ','|',' '] ++ endpoint.httpMethod.toList ++ [' ','|',' '] ++
    (endpoint.consumes.getD "").toList ++ [' ','|',' '] ++ (endpoint.produces.getD "").toList ++
    [' ','|'] = _
  simp only [tableRow,shownTexts,padded,List.map_cons,List.map_nil,List.flatMap_cons,
    List.flatMap_nil,List.append_assoc,List.cons_append,List.nil_append,List.append_nil]

theorem isWord_verb {verb : String} (known : verb ∈ Endpoint.verbs) :
    ∀ c ∈ verb.toList, Text.isWord c = true := by
  have each : ∀ verb ∈ Endpoint.verbs, ∀ c ∈ verb.toList, Text.isWord c = true := by decide
  exact each verb known

theorem isWord_method (read : Extraction.read? content file language = some extraction)
    {method : Method} (member : method ∈ extraction.unit.methods) :
    ∀ c ∈ method.name.toList, Text.isWord c = true := by
  rw [Extraction.read?] at read
  split at read
  · rw [← Option.some.inj read] at member
    obtain ⟨found,among,made⟩ := List.mem_filterMap.mp member
    obtain ⟨⟨site,stands,_⟩,_⟩ := Method.exists_site among made
    exact stands.named.2
  · cases read

/-- The row of an operation gives it back exactly if its path and its media types can be shown in
cells. Its name and its verb always can. -/
theorem endpoint_row_reads_back (read : Extraction.read? content file language = some extraction)
    (member : endpoint ∈ extraction.endpoints) :
    ReadsBack (shownTexts endpoint) (endpointRow endpoint).toList ↔
      ∀ text ∈ [endpoint.path,endpoint.consumes.getD "",endpoint.produces.getD ""],
        IsCell text.toList := by
  have serves := Extraction.owned_of_read read endpoint member
  obtain ⟨method,among,named,_⟩ := serves.method
  have name := isCell_of_isWord (isWord_method read among)
  have verb := isCell_of_isWord (isWord_verb serves.verb)
  rw [named] at name
  rw [toList_endpointRow,readsBack_tableRow_iff,shownTexts]
  simp [name,verb]

/-- A resource with a choice in the template of a path. -/
def picker (choice : String) : List Char :=
  "@Path(\"/r\")\npublic class Picker \x7b\n    @GET @Path(\"/\x7bv: (".toList ++ (choice.toList ++
    ")\x7d\")\n    public String pick() \x7b return null; \x7d\n\x7d".toList)

theorem endpoint_row_reads_back_shielded : ∃ extraction endpoint,
    Extraction.read? (picker "a\\\\|b") "Picker.java" "java" = some extraction ∧
    endpoint ∈ extraction.endpoints ∧ endpoint.path = "/r/\x7bv: (a\\\\|b)\x7d" ∧
    ReadsBack (shownTexts endpoint) (endpointRow endpoint).toList := by
  let endpoint : Endpoint := ⟨"GET","/r/\x7bv: (a\\\\|b)\x7d","pick","Picker","default",none,none⟩
  have read := Extraction.read?_java (picker "a\\\\|b") "Picker.java"
  have member : endpoint ∈ (Extraction.ofText (picker "a\\\\|b") "Picker.java").endpoints := by
    decide +kernel
  exact ⟨_,endpoint,read,member,rfl,(endpoint_row_reads_back read member).mpr (by decide +kernel)⟩

/-- A bar in the template of a path opens one more cell. -/
theorem endpoint_row_falls_apart : ∃ extraction endpoint,
    Extraction.read? (picker "a|b") "Picker.java" "java" = some extraction ∧
    endpoint ∈ extraction.endpoints ∧ endpoint.path = "/r/\x7bv: (a|b)\x7d" ∧
    (cellsFrom false (endpointRow endpoint).toList).map String.ofList =
      [""," pick "," /r/\x7bv: (a","b)\x7d "," GET ","  ","  ",""] ∧
    ¬ ReadsBack (shownTexts endpoint) (endpointRow endpoint).toList := by
  let endpoint : Endpoint := ⟨"GET","/r/\x7bv: (a|b)\x7d","pick","Picker","default",none,none⟩
  have read := Extraction.read?_java (picker "a|b") "Picker.java"
  have member : endpoint ∈ (Extraction.ofText (picker "a|b") "Picker.java").endpoints := by
    decide +kernel
  refine ⟨_,endpoint,read,member,rfl,by decide +kernel,?_⟩
  rw [toList_endpointRow,readsBack_tableRow_iff]
  decide +kernel

end Endpoints

end JavaAtlas.Report
