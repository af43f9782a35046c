import JavaAtlas.Proofs.Growth
import Mathlib.Data.List.Infix
import Mathlib.Data.String.Basic

/-! Paths as they are read from texts: the parts between the slashes, and where the last of them
comes from. -/
namespace JavaAtlas.Path
variable {text : List Char} {name : String} {here : Place} {path : Path}

/-- Whether a text between two slashes is a part of the path. -/
def isPart (name : String) : Bool := !name.isEmpty && name != "."

def partsOf (text : List Char) : List String :=
  ((text.splitOn '/').map String.ofList).filter isPart

theorem parts_ofText (text : String) : (ofText text).parts = partsOf text.toList := rfl

theorem partsOf_append (front rest : List Char) :
    partsOf (front ++ '/' :: rest) = partsOf front ++ partsOf rest := by
  rw [partsOf,List.splitOn_append_cons_self,List.map_append,List.filter_append,← partsOf,← partsOf]

theorem partsOf_single (solid : '/' ∉ text) :
    partsOf text = [String.ofList text].filter isPart := by
  rw [partsOf,List.splitOn_eq_singleton solid,List.map_singleton]

/-- What holds of texts without a slash, and behind each slash again, holds of all texts. -/
theorem byParts {holds : List Char → Prop} (single : ∀ text, '/' ∉ text → holds text)
    (joined : ∀ front rest, '/' ∉ front → holds rest → holds (front ++ '/' :: rest))
    (text : List Char) : holds text := by
  by_cases slash : '/' ∈ text
  · obtain ⟨front,rest,same,solid⟩ := List.eq_append_cons_of_mem slash
    have shorter : rest.length < text.length := by
      rw [same,List.length_append,List.length_cons]
      omega
    rw [same]
    exact joined front rest solid (byParts single joined rest)
  · exact single text slash
termination_by text.length

theorem solid_of_mem_partsOf (member : name ∈ partsOf text) : '/' ∉ name.toList := by
  induction text using byParts with
  | single text solid =>
    rw [partsOf_single solid] at member
    rw [List.mem_singleton.mp (List.mem_filter.mp member).1,String.toList_ofList]
    exact solid
  | joined front rest solid ih =>
    rw [partsOf_append,List.mem_append,partsOf_single solid] at member
    rcases member with first | later
    · rw [List.mem_singleton.mp (List.mem_filter.mp first).1,String.toList_ofList]
      exact solid
    · exact ih later

theorem isPart_of_length (long : 2 ≤ name.toList.length) : isPart name = true := by
  rw [isPart,Bool.and_eq_true,Bool.not_eq_true',bne_iff_ne]
  constructor
  · rw [← Bool.not_eq_true,String.isEmpty_iff]
    rintro rfl
    simp at long
  · rintro rfl
    simp at long

/-- A tail of a text that no slash divides is the tail of the last part. -/
theorem last_partsOf {tail : List Char} (solid : '/' ∉ tail) (long : 2 ≤ tail.length)
    (ends : tail <:+ text) :
    ∃ front last, partsOf text = front ++ [last] ∧ tail <:+ last.toList := by
  induction text using byParts with
  | single text undivided =>
    refine ⟨[],String.ofList text,?_,by rwa [String.toList_ofList]⟩
    have part : isPart (String.ofList text) = true := by
      apply isPart_of_length
      rw [String.toList_ofList]
      exact long.trans ends.length_le
    rw [partsOf_single undivided,List.filter_cons_of_pos part]
    rfl
  | joined front rest _ ih =>
    have inside : tail <:+ rest := by
      rcases List.suffix_or_suffix_of_suffix ends (List.suffix_append front ('/' :: rest)) with
        shorter | longer
      · rcases List.suffix_cons_iff.mp shorter with rfl | inside
        · exact absurd List.mem_cons_self solid
        · exact inside
      · exact absurd (longer.subset List.mem_cons_self) solid
    obtain ⟨init,last,parts,further⟩ := ih inside
    refine ⟨partsOf front ++ init,last,?_,further⟩
    rw [partsOf_append,parts,List.append_assoc]

theorem slashes_ofText {c : Char} {rest : List Char} (chars : name.toList = c :: rest)
    (other : c ≠ '/') : (ofText name).slashes = 0 := by
  have unslashed : name.toList.takeWhile (· == '/') = [] := by
    rw [chars,List.takeWhile_cons,if_neg (by simpa using other)]
  rw [ofText,unslashed]
  rfl

theorem ofText_name (solid : '/' ∉ name.toList) (part : isPart name = true) :
    ofText name = ⟨0,[name]⟩ := by
  have parts : (ofText name).parts = [name] := by
    rw [parts_ofText,partsOf_single solid,String.ofList_toList,List.filter_cons_of_pos part]
    rfl
  rw [← parts]
  cases chars : name.toList with
  | nil =>
    rw [isPart,String.toList_eq_nil_iff.mp chars] at part
    cases part
  | cons c rest =>
    rw [chars,List.mem_cons,not_or] at solid
    rw [← slashes_ofText chars (Ne.symm solid.1)]

/-- No part has a slash. -/
def Plain (parts : List String) : Prop := ∀ part ∈ parts, '/' ∉ part.toList

theorem Plain.append {parts more : List String} (plain : Plain parts) (others : Plain more) :
    Plain (parts ++ more) :=
  List.forall_mem_append.mpr ⟨plain,others⟩

theorem Plain.tail {part : String} {parts : List String} (plain : Plain (part :: parts)) :
    Plain parts :=
  fun other member => plain other (List.mem_cons_of_mem _ member)

theorem plain_ofText (text : String) : Plain (ofText text).parts :=
  fun _ member => solid_of_mem_partsOf member

theorem plain_step {place : Place} {part : String} (plain : Plain place)
    (solid : '/' ∉ part.toList) :
    Plain (place.step part) := by
  rw [Place.step]
  split
  · exact fun other member => plain other (List.mem_of_mem_dropLast member)
  · exact plain.append (List.forall_mem_singleton.mpr solid)

theorem plain_place (plain : Plain here) (parts : Plain path.parts) : Plain (path.place here) := by
  have start : Plain (if path.slashes == 0 then here else []) := by
    split
    · exact plain
    · exact nofun
  change Plain (path.parts.foldl Place.step _)
  exact List.foldlRecOn path.parts Place.step start fun place so part member =>
    plain_step so (parts part member)

theorem solid_name (plain : Plain path.parts) : '/' ∉ path.name.toList := by
  rw [Path.name]
  cases last : path.parts.getLast? with
  | none => simp
  | some part => exact plain part (List.mem_of_getLast? last)

end JavaAtlas.Path
