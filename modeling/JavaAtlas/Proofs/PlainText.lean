import JavaAtlas.Json.Printer
import JavaAtlas.Text.Utf8
import Mathlib.Data.List.Basic

/-! Printed documents are plain: ASCII without carriage returns. Such a text is the same after it
was encoded, decoded and given uniform line breaks, so a stored document is read as it was
printed. -/
namespace JavaAtlas

namespace Text

/-- No character is a surrogate. -/
theorem scalar (c : Char) : c.toNat < 0xD800 ∨ 0xDFFF < c.toNat ∧ c.toNat < 0x110000 := c.valid

def isPlain (c : Char) : Bool := c.toNat < 128 && c != '\r'

def IsPlain (text : List Char) : Prop := text.all isPlain = true

instance (text : List Char) : Decidable (IsPlain text) :=
  inferInstanceAs (Decidable (text.all isPlain = true))

theorem isPlain_iff {text : List Char} : IsPlain text ↔ ∀ c ∈ text, isPlain c = true :=
  List.all_eq_true

theorem isPlain_nil : IsPlain [] := rfl

theorem isPlain_cons {c : Char} {text : List Char} :
    IsPlain (c :: text) ↔ isPlain c = true ∧ IsPlain text := by
  rw [IsPlain,List.all_cons,Bool.and_eq_true,IsPlain]

theorem isPlain_append {first second : List Char} :
    IsPlain (first ++ second) ↔ IsPlain first ∧ IsPlain second := by
  rw [IsPlain,List.all_append,Bool.and_eq_true,IsPlain,IsPlain]

theorem IsPlain.of_subset {part text : List Char} (plain : IsPlain text) (subset : part ⊆ text) :
    IsPlain part :=
  isPlain_iff.mpr fun c member => isPlain_iff.mp plain c (subset member)

theorem isPlain_replicate (count : Nat) {c : Char} (plain : isPlain c = true) :
    IsPlain (List.replicate count c) := by
  rw [isPlain_iff]
  intro other member
  rw [List.eq_of_mem_replicate member]
  exact plain

theorem isPlain_intercalate {separator : List Char} {parts : List (List Char)}
    (between : IsPlain separator) (plain : ∀ part ∈ parts, IsPlain part) :
    IsPlain (separator.intercalate parts) := by
  induction parts with
  | nil => exact isPlain_nil
  | cons first rest ih =>
    rw [List.forall_mem_cons] at plain
    cases rest with
    | nil =>
      rw [List.intercalate_singleton]
      exact plain.1
    | cons second others =>
      rw [List.intercalate_cons_cons,isPlain_append,isPlain_append]
      exact ⟨⟨plain.1,between⟩,ih plain.2⟩

theorem isPlain_digits (n : Nat) : IsPlain (Nat.toDigits 10 n) := by
  rw [isPlain_iff]
  intro c member
  have digit := Nat.isDigit_of_mem_toDigits (by omega) (by omega) member
  rw [Char.isDigit_iff_toNat] at digit
  have bound : c.toNat ≤ 57 := digit.2
  have low : 48 ≤ c.toNat := digit.1
  have apart : c ≠ '\r' := by
    rintro rfl
    exact absurd low (by decide)
  simp only [isPlain,Bool.and_eq_true,decide_eq_true_eq,bne_iff_ne]
  exact ⟨by omega,apart⟩

theorem isPlain_ofInt (n : Int) : IsPlain (ofInt n) := by
  cases n with
  | ofNat k => exact isPlain_digits k
  | negSucc k => exact isPlain_cons.mpr ⟨rfl,isPlain_digits (k + 1)⟩

theorem hexDigits_one {value : Nat} (small : value < 16) : hexDigits 1 value = [value.digitChar] := by
  rw [hexDigits,Nat.toDigits_of_lt_base small]
  rfl

theorem hexDigits_succ (width value : Nat) :
    hexDigits (width + 2) value =
      hexDigits (width + 1) (value / 16) ++ [(value % 16).digitChar] := by
  rw [hexDigits,hexDigits]
  by_cases small : value < 16
  · have zero : value / 16 = 0 := by omega
    rw [zero,Nat.toDigits_zero,Nat.toDigits_of_lt_base small,Nat.mod_eq_of_lt small]
    simp [List.replicate_succ',Nat.digitChar]
  · rw [Nat.toDigits_eq_if (by omega),if_neg small]
    simp

theorem hexDigits_four {value : Nat} (small : value < 65536) :
    hexDigits 4 value = [(value / 4096).digitChar,(value / 256 % 16).digitChar,
      (value / 16 % 16).digitChar,(value % 16).digitChar] := by
  rw [hexDigits_succ,hexDigits_succ,hexDigits_succ,hexDigits_one (by omega)]
  simp only [Nat.div_div_eq_div_mul,Nat.reduceMul]
  rfl

theorem isPlain_digitChar : ∀ {digit : Nat}, digit < 16 → isPlain digit.digitChar = true := by
  decide

theorem isPlain_hexDigits {value : Nat} (small : value < 65536) : IsPlain (hexDigits 4 value) := by
  rw [hexDigits_four small]
  simp only [isPlain_cons]
  exact ⟨isPlain_digitChar (by omega),isPlain_digitChar (by omega),isPlain_digitChar (by omega),
    isPlain_digitChar (by omega),isPlain_nil⟩

end Text

namespace Binary64
open Text (IsPlain isPlain_append isPlain_cons isPlain_nil isPlain_digits isPlain_replicate)

theorem isPlain_positional {digits : List Char} (plain : IsPlain digits) (power : Int) :
    IsPlain (positional digits power) := by
  unfold positional
  split
  · simp only [isPlain_append]
    exact ⟨⟨by decide,isPlain_replicate _ rfl⟩,plain⟩
  · dsimp only
    simp only [isPlain_append]
    refine ⟨⟨⟨plain.of_subset (List.take_subset _ _),isPlain_replicate _ rfl⟩,by decide⟩,?_⟩
    split
    · decide
    · exact plain.of_subset (List.drop_subset _ _)

theorem isPlain_scientific {digits : List Char} (plain : IsPlain digits) (power : Int) :
    IsPlain (scientific digits power) := by
  unfold scientific
  dsimp only
  simp only [isPlain_append]
  refine ⟨⟨⟨⟨plain.of_subset (List.take_subset _ _),?_⟩,?_⟩,isPlain_replicate _ rfl⟩,
    isPlain_digits power.natAbs⟩
  · split
    · decide
    · exact isPlain_cons.mpr ⟨rfl,plain.of_subset (List.drop_subset _ _)⟩
  · split <;> decide

theorem isPlain_magnitude (significand : Nat) (exponent : Int) :
    IsPlain (magnitude significand exponent) := by
  unfold magnitude
  split
  · decide
  · dsimp only
    have plain := isPlain_digits (shortest significand exponent).1
    have digits : IsPlain ((Nat.toDigits 10 (shortest significand exponent).1).reverse.dropWhile
        (· == '0')).reverse := by
      apply plain.of_subset
      intro c member
      exact List.mem_reverse.mp ((List.dropWhile_sublist _).subset (List.mem_reverse.mp member))
    split
    · exact isPlain_positional digits _
    · exact isPlain_scientific digits _

theorem isPlain_text (value : Binary64) : IsPlain (value.text "NaN" "Infinity") := by
  cases value with
  | notANumber => decide
  | infinite negative => cases negative <;> decide
  | finite negative significand exponent =>
    rw [text,isPlain_append]
    refine ⟨?_,isPlain_magnitude significand exponent⟩
    split <;> decide

end Binary64

namespace Json
open Text (IsPlain isPlain_append isPlain_cons isPlain_nil isPlain_digits isPlain_replicate)

theorem isPlain_escapedUnit {unit : Nat} (small : unit < 65536) : IsPlain (escapedUnit unit) := by
  rw [escapedUnit,isPlain_append]
  exact ⟨by decide,Text.isPlain_hexDigits small⟩

theorem isPlain_escapedChar (c : Char) : IsPlain (escapedChar c) := by
  have bound := Text.scalar c
  fun_cases escapedChar c with
  | case8 _ _ _ other _ _ _ printable =>
    have apart : c ≠ '\r' := by simpa using other
    simp only [Bool.and_eq_true,decide_eq_true_eq] at printable
    rw [isPlain_cons,Text.isPlain,Bool.and_eq_true,decide_eq_true_eq,bne_iff_ne]
    exact ⟨⟨by omega,apart⟩,isPlain_nil⟩
  | case9 _ _ _ _ _ _ _ _ first => exact isPlain_escapedUnit first
  | case10 =>
    rw [isPlain_append]
    exact ⟨isPlain_escapedUnit (by omega),isPlain_escapedUnit (by omega)⟩
  | _ => decide

theorem isPlain_renderText (text : String) : IsPlain (renderText text) := by
  rw [renderText,isPlain_cons,isPlain_append]
  refine ⟨rfl,?_,by decide⟩
  rw [Text.isPlain_iff]
  intro c member
  obtain ⟨source,_,inside⟩ := List.mem_flatMap.mp member
  exact Text.isPlain_iff.mp (isPlain_escapedChar source) c inside

theorem isPlain_newLine (level : Nat) : IsPlain (newLine level) := by
  rw [newLine,isPlain_cons]
  exact ⟨rfl,isPlain_replicate _ rfl⟩

theorem isPlain_enclose {opening closing : Char} (level : Nat) {parts : List (List Char)}
    (first : Text.isPlain opening = true) (last : Text.isPlain closing = true)
    (plain : ∀ part ∈ parts, IsPlain part) : IsPlain (enclose opening closing level parts) := by
  unfold enclose
  split
  · simp only [isPlain_cons]
    exact ⟨first,last,isPlain_nil⟩
  · have between : IsPlain (',' :: newLine (level + 1)) :=
      isPlain_cons.mpr ⟨rfl,isPlain_newLine (level + 1)⟩
    simp only [isPlain_cons,isPlain_append]
    exact ⟨first,⟨⟨isPlain_newLine (level + 1),Text.isPlain_intercalate between plain⟩,
      isPlain_newLine level⟩,last,isPlain_nil⟩

mutual
theorem isPlain_render (level : Nat) : ∀ value, IsPlain (render level value)
  | .null => by rw [render]; decide
  | .bool true => by rw [render]; decide
  | .bool false => by rw [render]; decide
  | .int value => by rw [render]; exact Text.isPlain_ofInt value
  | .float value => by rw [render]; exact Binary64.isPlain_text value
  | .str value => by rw [render]; exact isPlain_renderText value
  | .arr items => by
    rw [render]
    exact isPlain_enclose level rfl rfl (isPlain_renderItems (level + 1) items)
  | .obj fields => by
    rw [render]
    exact isPlain_enclose level rfl rfl (isPlain_renderFields (level + 1) fields)

theorem isPlain_renderItems (level : Nat) : ∀ items, ∀ part ∈ renderItems level items, IsPlain part
  | [] => nofun
  | item :: rest => by
    rw [renderItems,List.forall_mem_cons]
    exact ⟨isPlain_render level item,isPlain_renderItems level rest⟩

theorem isPlain_renderFields (level : Nat) :
    ∀ fields, ∀ part ∈ renderFields level fields, IsPlain part
  | [] => nofun
  | (name,value) :: rest => by
    rw [renderFields,List.forall_mem_cons,isPlain_append,isPlain_append]
    exact ⟨⟨⟨isPlain_renderText name,by decide⟩,isPlain_render level value⟩,
      isPlain_renderFields level rest⟩
end

theorem isPlain_print (value : Json) : IsPlain value.print := isPlain_render 0 value

end Json

namespace Text.Utf8

theorem encode_plain {c : Char} (plain : isPlain c = true) :
    String.utf8EncodeChar c = [UInt8.ofNat c.toNat] := by
  simp only [isPlain,Bool.and_eq_true,decide_eq_true_eq] at plain
  have small : c.val.toNat ≤ 127 := Nat.le_of_lt_succ plain.1
  rw [String.utf8EncodeChar]
  exact if_pos small

theorem first_plain {c : Char} (plain : isPlain c = true) (rest : List UInt8) :
    Piece.first (UInt8.ofNat c.toNat) rest = .char c 1 := by
  simp only [isPlain,Bool.and_eq_true,decide_eq_true_eq] at plain
  have byte : (UInt8.ofNat c.toNat).toNat = c.toNat := by
    rw [UInt8.toNat_ofNat']
    omega
  rw [Piece.first,byte,if_pos plain.1,Char.ofNat_toNat]

theorem piecesFrom_plain {text : List Char} (plain : IsPlain text) (done : List Piece) :
    piecesFrom 0 (encode text) done = done.reverse ++ text.map fun c => .char c 1 := by
  induction text generalizing done with
  | nil => simp [encode,piecesFrom]
  | cons c rest ih =>
    obtain ⟨first,others⟩ := isPlain_cons.mp plain
    have bytes : encode (c :: rest) = UInt8.ofNat c.toNat :: encode rest := by
      rw [encode,List.flatMap_cons,encode_plain first]
      rfl
    rw [bytes,piecesFrom,first_plain first]
    dsimp only [Piece.length]
    rw [ih others]
    simp

theorem firstProblem?_chars (bytes : List UInt8) (start : Nat) (text : List Char) :
    firstProblem? bytes start (text.map fun c => .char c 1) = none := by
  induction text generalizing start with
  | nil => rfl
  | cons c rest ih => exact ih (start + 1)

theorem decode_encode_plain {text : List Char} (plain : IsPlain text) :
    decode (encode text) = .ok text := by
  have pieces : pieces (encode text) = text.map fun c => .char c 1 := piecesFrom_plain plain []
  rw [decode,pieces,firstProblem?_chars,decodeLenient,pieces,List.map_map]
  simp [Function.comp_def]

theorem unifyLineBreaks_plain {text : List Char} (plain : IsPlain text) :
    unifyLineBreaks text = text := by
  have folded (done : List Char) : (text.foldl (fun (state : Bool × List Char) c =>
      if c == '\r' then (true,'\n' :: state.2)
      else if c == '\n' && state.1 then (false,state.2)
      else (false,c :: state.2)) (false,done)) = (false,text.reverse ++ done) := by
    induction text generalizing done with
    | nil => rfl
    | cons c rest ih =>
      obtain ⟨first,others⟩ := isPlain_cons.mp plain
      have apart : (c == '\r') = false := by
        simp only [isPlain,Bool.and_eq_true,bne_iff_ne] at first
        simpa using first.2
      rw [List.foldl_cons,apart,Bool.and_false]
      simpa using ih others (c :: done)
  rw [unifyLineBreaks,folded]
  simp

end Text.Utf8

end JavaAtlas
