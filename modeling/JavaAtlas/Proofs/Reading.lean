import JavaAtlas.Json.Reader
import JavaAtlas.Proofs.PlainText
import JavaAtlas.Proofs.Words
import Mathlib.Data.List.Basic

/-! Printed documents are read as what was printed, if no name comes twice in an object, no number
is a float or has too many digits, and nothing lies too deep. -/
namespace JavaAtlas

namespace Text

theorem digitValue?_of_isDigit {c : Char} (digit : c.isDigit = true) :
    digitValue? c = some (c.toNat - 48) := by
  have range := Char.isDigit_iff_toNat.mp digit
  have bound : c.toNat ≤ 57 := range.2
  rw [digitValue?,if_pos (by omega),if_pos digit]

theorem numeralDigits_of_isDigit {digits : List Char} (all : ∀ c ∈ digits, c.isDigit = true)
    (given : digits ≠ []) : numeralDigits digits = some (digits.map fun c => c.toNat - 48) := by
  induction digits with
  | nil => exact absurd rfl given
  | cons c rest ih =>
    rw [List.forall_mem_cons] at all
    rw [numeralDigits.eq_def]
    dsimp only
    rw [digitValue?_of_isDigit all.1]
    dsimp only
    split
    · rfl
    · next others =>
      have mark := all.2 '_' List.mem_cons_self
      exact absurd mark (by decide)
    · next more _ =>
      rw [ih all.2 more,Option.map_some,List.map_cons]

/-- A number is read back if it does not have too many digits, and otherwise not read at all. -/
theorem natural?_digits (n : Nat) : natural? (Nat.toDigits 10 n) =
    if (Nat.toDigits 10 n).length ≤ numeralLimit then some n else none := by
  have all : ∀ c ∈ Nat.toDigits 10 n, c.isDigit = true :=
    fun c => Nat.isDigit_of_mem_toDigits (by omega) (by omega)
  rw [natural?,numeralDigits_of_isDigit all Nat.toDigits_ne_nil,Option.bind_some,List.length_map,
    List.foldl_map]
  split
  · exact congrArg some Nat.ofDigitChars_ten_toDigits
  · rfl

theorem natural?_toDigits {n : Nat} (few : (Nat.toDigits 10 n).length ≤ numeralLimit) :
    natural? (Nat.toDigits 10 n) = some n := by
  rw [natural?_digits,if_pos few]

theorem isMargin_of_le {c : Char} (low : 33 ≤ c.toNat) (high : c.toNat < 128) :
    isMargin c = false := by
  have blank : isBlank c = false := by
    simp only [isBlank,Bool.or_eq_false_iff,Bool.and_eq_false_iff,decide_eq_false_iff_not,
      beq_eq_false_iff_ne]
    omega
  rw [isMargin,blank,Bool.false_and]

theorem isMargin_ofInt (value : Int) : ∀ c ∈ ofInt value, isMargin c = false := by
  have digits (n : Nat) : ∀ c ∈ Nat.toDigits 10 n, isMargin c = false := by
    intro c member
    have range := Char.isDigit_iff_toNat.mp (Nat.isDigit_of_mem_toDigits (by omega) (by omega) member)
    have low : 48 ≤ c.toNat := range.1
    have high : c.toNat ≤ 57 := range.2
    exact isMargin_of_le (by omega) (by omega)
  cases value with
  | ofNat n => exact digits n
  | negSucc n =>
    rw [ofInt,List.forall_mem_cons]
    exact ⟨by decide,digits (n + 1)⟩

theorem toDigits_eq_cons (n : Nat) :
    ∃ c rest, Nat.toDigits 10 n = c :: rest ∧ c.isDigit = true := by
  obtain ⟨c,rest,digits⟩ := List.exists_cons_of_ne_nil (@Nat.toDigits_ne_nil n 10)
  refine ⟨c,rest,digits,?_⟩
  apply @Nat.isDigit_of_mem_toDigits 10 n c (by omega) (by omega)
  rw [digits]
  exact List.mem_cons_self

theorem integer?_digits (n : Nat) :
    integer? (ofInt n) = (natural? (Nat.toDigits 10 n)).map Int.ofNat := by
  obtain ⟨c,rest,digits,digit⟩ := toDigits_eq_cons n
  have text : ofInt n = Nat.toDigits 10 n := rfl
  rw [integer?,trimWhile_of_forall (isMargin_ofInt n),text]
  split
  · next same =>
    rw [digits] at same
    cases same
    exact absurd digit (by decide)
  · next same =>
    rw [digits] at same
    cases same
    exact absurd digit (by decide)
  · rfl

theorem integer?_ofInt {value : Int} (few : (Nat.toDigits 10 value.natAbs).length ≤ numeralLimit) :
    integer? (ofInt value) = some value := by
  cases value with
  | ofNat n =>
    have parsed : natural? (Nat.toDigits 10 n) = some n := natural?_toDigits few
    exact (integer?_digits n).trans (congrArg _ parsed)
  | negSucc n =>
    have parsed : natural? (Nat.toDigits 10 (n + 1)) = some (n + 1) := natural?_toDigits few
    rw [integer?,trimWhile_of_forall (isMargin_ofInt _),ofInt]
    split
    · next same =>
      cases same
      rw [parsed]
      rfl
    · next same => cases same
    · next other _ => exact absurd rfl (other _)

end Text

namespace Json

/-- The code units of a character: itself, or a pair of surrogates. -/
def units (c : Char) : List Nat :=
  if c.toNat < 0x10000 then [c.toNat]
  else [0xD800 + (c.toNat - 0x10000) / 0x400,0xDC00 + (c.toNat - 0x10000) % 0x400]

theorem ofUnits_single {unit : Nat} (outside : unit < 0xD800 ∨ 0xDFFF < unit) (rest : List Nat)
    (done : List Char) : ofUnits (unit :: rest) done = ofUnits rest (Char.ofNat unit :: done) := by
  have high : ¬ (0xD800 ≤ unit && unit ≤ 0xDBFF) = true := by
    simp only [Bool.and_eq_true,decide_eq_true_eq]
    omega
  have low : ¬ (0xDC00 ≤ unit && unit ≤ 0xDFFF) = true := by
    simp only [Bool.and_eq_true,decide_eq_true_eq]
    omega
  rw [ofUnits.eq_def]
  dsimp only
  rw [if_neg high,if_neg low]

theorem ofUnits_pair {offset : Nat} (small : offset < 0x100000) (rest : List Nat)
    (done : List Char) :
    ofUnits ((0xD800 + offset / 0x400) :: (0xDC00 + offset % 0x400) :: rest) done =
      ofUnits rest (Char.ofNat (0x10000 + offset) :: done) := by
  have high : (0xD800 ≤ 0xD800 + offset / 0x400 && 0xD800 + offset / 0x400 ≤ 0xDBFF) = true := by
    simp only [Bool.and_eq_true,decide_eq_true_eq]
    omega
  have low : (0xDC00 ≤ 0xDC00 + offset % 0x400 && 0xDC00 + offset % 0x400 ≤ 0xDFFF) = true := by
    simp only [Bool.and_eq_true,decide_eq_true_eq]
    omega
  have value : 0x10000 + 0x400 * (0xD800 + offset / 0x400 - 0xD800) +
      (0xDC00 + offset % 0x400 - 0xDC00) = 0x10000 + offset := by omega
  rw [ofUnits.eq_def]
  dsimp only
  rw [if_pos high,if_pos low,value]

theorem ofUnits_units (text done : List Char) :
    ofUnits (text.flatMap units) done = done.reverse ++ text := by
  induction text generalizing done with
  | nil => simp [ofUnits]
  | cons c rest ih =>
    have valid := Text.scalar c
    rw [List.flatMap_cons,units]
    split
    · rw [List.singleton_append,ofUnits_single (by omega),Char.ofNat_toNat,ih]
      simp
    · have back : 0x10000 + (c.toNat - 0x10000) = c.toNat := by omega
      rw [List.cons_append,List.singleton_append,ofUnits_pair (by omega),back,Char.ofNat_toNat,ih]
      simp

theorem hexValue?_digitChar : ∀ {digit : Nat}, digit < 16 →
    hexValue? digit.digitChar = some digit := by
  decide

theorem hexUnit?_digits {value : Nat} (small : value < 65536) :
    hexUnit? [(value / 4096).digitChar,(value / 256 % 16).digitChar,(value / 16 % 16).digitChar,
      (value % 16).digitChar] = some value := by
  have whole : 16 * (16 * (16 * (16 * 0 + value / 4096) + value / 256 % 16) + value / 16 % 16) +
      value % 16 = value := by omega
  simp only [hexUnit?,List.foldlM_cons,List.foldlM_nil,
    hexValue?_digitChar (show value / 4096 < 16 by omega),
    hexValue?_digitChar (show value / 256 % 16 < 16 by omega),
    hexValue?_digitChar (show value / 16 % 16 < 16 by omega),
    hexValue?_digitChar (show value % 16 < 16 by omega),Option.map_some,Option.bind_eq_bind,
    Option.bind_some,whole]
  rfl

section Strings
variable (start : List Char) {tail : List Char}

theorem readString_escapedUnit {unit : Nat} (small : unit < 65536) (more : tail ≠ [])
    (done : List Nat) :
    readString start (escapedUnit unit ++ tail) done = readString start tail (unit :: done) := by
  obtain ⟨next,rest,rfl⟩ := List.exists_cons_of_ne_nil more
  rw [escapedUnit,Text.hexDigits_four small]
  simp only [List.cons_append,List.nil_append]
  rw [readString.eq_def]
  dsimp only
  rw [if_neg (by decide),if_pos (show ('\\' == '\\') = true from rfl),
    if_pos (show ('u' == 'u') = true from rfl),hexUnit?_digits small]

theorem readString_plain {c : Char} (quote : c ≠ '"') (slash : c ≠ '\\') (printable : 0x20 ≤ c.toNat)
    (done : List Nat) :
    readString start (c :: tail) done = readString start tail (c.toNat :: done) := by
  rw [readString.eq_def]
  dsimp only
  rw [if_neg (by simpa using quote),if_neg (by simpa using slash),if_neg (by omega)]

theorem readString_shortEscape {escape plain : Char} (numeric : escape ≠ 'u')
    (short : shortEscape? escape = some plain) (done : List Nat) :
    readString start ('\\' :: escape :: tail) done =
      readString start tail (plain.toNat :: done) := by
  rw [readString.eq_def]
  dsimp only
  rw [if_neg (by decide),if_pos (show ('\\' == '\\') = true from rfl),
    if_neg (by simpa using numeric),short]

theorem readString_escapedChar (c : Char) (more : tail ≠ []) (done : List Nat) :
    readString start (escapedChar c ++ tail) done =
      readString start tail ((units c).reverse ++ done) := by
  have valid := Text.scalar c
  fun_cases escapedChar c with
  | case1 same | case2 _ same | case3 _ _ same | case4 _ _ _ same | case5 _ _ _ _ same
  | case6 _ _ _ _ _ same | case7 _ _ _ _ _ _ same =>
    rw [beq_iff_eq] at same
    subst same
    exact readString_shortEscape start (by decide) rfl done
  | case8 quote slash _ _ _ _ _ printable =>
    simp only [Bool.and_eq_true,decide_eq_true_eq] at printable
    rw [units,if_pos (by omega)]
    exact readString_plain start (by simpa using quote) (by simpa using slash) printable.1 done
  | case9 _ _ _ _ _ _ _ _ first =>
    rw [units,if_pos first]
    exact readString_escapedUnit start first more done
  | case10 _ _ _ _ _ _ _ _ second =>
    rw [units,if_neg second,List.append_assoc,readString_escapedUnit start (by omega)
      (List.append_ne_nil_of_right_ne_nil _ more),readString_escapedUnit start (by omega) more]
    rfl

theorem readString_escaped (text rest : List Char) (done : List Nat) :
    readString start (text.flatMap escapedChar ++ '"' :: rest) done =
      .ok (String.ofList (ofUnits (done.reverse ++ text.flatMap units) []),rest) := by
  induction text generalizing done with
  | nil =>
    rw [List.flatMap_nil,List.flatMap_nil,List.append_nil,List.nil_append,readString.eq_def]
    rfl
  | cons c others ih =>
    rw [List.flatMap_cons,List.append_assoc,readString_escapedChar start c (by simp),ih]
    simp

theorem readString_renderText (text : String) (rest : List Char) :
    readString start (text.toList.flatMap escapedChar ++ '"' :: rest) [] = .ok (text,rest) := by
  rw [readString_escaped,List.reverse_nil,List.nil_append,ofUnits_units,List.reverse_nil,
    List.nil_append,String.ofList_toList]

end Strings

section Numbers

/-- What may follow a value in a printed document: nothing, a comma, or a new line. -/
def Ends (rest : List Char) : Prop := ∀ c ∈ rest.head?, c = ',' ∨ c = '\n'

variable {rest : List Char}

theorem digits_toDigits (ends : Ends rest) (n : Nat) :
    digits (Nat.toDigits 10 n ++ rest) = (Nat.toDigits 10 n,rest) := by
  have all : ∀ c ∈ Nat.toDigits 10 n, c.isDigit = true :=
    fun c => Nat.isDigit_of_mem_toDigits (by omega) (by omega)
  rw [digits,List.takeWhile_append_of_pos all,List.dropWhile_append_of_pos all]
  cases rest with
  | nil => simp
  | cons c others =>
    have digit : ¬ c.isDigit = true := by
      rcases ends c rfl with rfl | rfl <;> decide
    rw [List.takeWhile_cons_of_neg digit,List.dropWhile_cons_of_neg digit,List.append_nil]

theorem fraction_of_ends (ends : Ends rest) : fraction rest = ([],rest) := by
  unfold fraction
  split
  · rcases ends '.' rfl with same | same <;> exact absurd same (by decide)
  · rfl

theorem exponent_of_ends (ends : Ends rest) : exponent rest = ([],rest) := by
  cases rest with
  | nil => rfl
  | cons c others =>
    have mark : ¬ (c == 'e' || c == 'E') = true := by
      rcases ends c rfl with rfl | rfl <;> decide
    rw [exponent,if_neg mark]

theorem head_toDigits {n : Nat} (positive : 0 < n) {c : Char} {tail : List Char}
    (written : Nat.toDigits 10 n = c :: tail) : c ≠ '0' := by
  have base : 1 < 10 := by omega
  induction n using Nat.base_induction 10 base generalizing tail with
  | single n small =>
    rw [Nat.toDigits_of_lt_base small] at written
    cases written
    have digitChar : ∀ digit < 10, 0 < digit → digit.digitChar ≠ '0' := by decide
    exact digitChar n small positive
  | digit high low small more ih =>
    rw [← Nat.toDigits_append_toDigits base more small] at written
    obtain ⟨first,others,digits,_⟩ := Text.toDigits_eq_cons high
    rw [digits,List.cons_append] at written
    cases written
    exact ih more digits

theorem wholePart_toDigits (ends : Ends rest) (n : Nat) :
    wholePart (Nat.toDigits 10 n ++ rest) = (Nat.toDigits 10 n,rest) := by
  obtain ⟨c,tail,written,_⟩ := Text.toDigits_eq_cons n
  unfold wholePart
  split
  · next others same =>
    rcases Nat.eq_zero_or_pos n with rfl | positive
    · cases same
      rfl
    · rw [written,List.cons_append] at same
      cases same
      exact absurd rfl (head_toDigits positive written)
  · exact digits_toDigits ends n

theorem readNumber_digits (ends : Ends rest) {sign : List Char} (either : sign = [] ∨ sign = ['-'])
    {n : Nat} {value : Int} (parsed : Text.integer? (sign ++ Nat.toDigits 10 n) = some value) :
    readNumber (sign ++ (Nat.toDigits 10 n ++ rest)) = .ok (.int value,rest) := by
  obtain ⟨c,tail,written,digit⟩ := Text.toDigits_eq_cons n
  have first : ((sign ++ (Nat.toDigits 10 n ++ rest)).take 1).filter (· == '-') = sign := by
    rcases either with rfl | rfl
    · have other : (c == '-') = false := by
        rw [beq_eq_false_iff_ne]
        rintro rfl
        exact absurd digit (by decide)
      simp [written,other]
    · rfl
  rw [readNumber]
  dsimp only
  rw [first,List.drop_left,wholePart_toDigits ends,written]
  dsimp only
  rw [fraction_of_ends ends]
  dsimp only
  rw [exponent_of_ends ends,← written,parsed]
  simp [written]

theorem word_ofInt (value : Int) (rest : List Char) :
    (wordValues.find? fun entry => entry.1.toList.isPrefixOf (Text.ofInt value ++ rest)) = none := by
  rw [List.find?_eq_none]
  have letters (n : Nat) (first : Char) (others : List Char) (letter : first.isDigit = false) :
      ¬ (first :: others).isPrefixOf (Nat.toDigits 10 n ++ rest) = true := by
    obtain ⟨c,tail,written,digit⟩ := Text.toDigits_eq_cons n
    have apart : first ≠ c := by
      rintro rfl
      rw [letter] at digit
      cases digit
    rw [written]
    simp [List.isPrefixOf,apart]
  cases value with
  | ofNat n =>
    rw [Text.ofInt]
    simp only [wordValues,List.forall_mem_cons]
    exact ⟨letters n 'n' _ rfl,letters n 't' _ rfl,letters n 'f' _ rfl,letters n 'N' _ rfl,
      letters n 'I' _ rfl,letters n '-' _ rfl,nofun⟩
  | negSucc n =>
    rw [Text.ofInt]
    simp only [wordValues,List.forall_mem_cons]
    refine ⟨nofun,nofun,nofun,nofun,nofun,?_,nofun⟩
    exact letters (n + 1) 'I' _ rfl

theorem readPlain_ofInt (ends : Ends rest) {value : Int}
    (few : (Nat.toDigits 10 value.natAbs).length ≤ Text.numeralLimit) :
    readPlain (Text.ofInt value ++ rest) = .ok (.int value,rest) := by
  have parsed := Text.integer?_ofInt few
  rw [readPlain,word_ofInt]
  dsimp only
  cases value with
  | ofNat n => exact readNumber_digits ends (.inl rfl) parsed
  | negSucc n => exact readNumber_digits ends (.inr rfl) parsed

end Numbers

/-- Values that are read as they are printed, with lists and objects in each other up to a
depth. -/
inductive Readable : Nat → Json → Prop
  | null {depth : Nat} : Readable depth .null
  | bool {depth : Nat} (value : Bool) : Readable depth (.bool value)
  | int {depth : Nat} {value : Int}
      (few : (Nat.toDigits 10 value.natAbs).length ≤ Text.numeralLimit) :
      Readable depth (.int value)
  | str {depth : Nat} (value : String) : Readable depth (.str value)
  | arr {depth : Nat} {items : List Json} (each : ∀ item ∈ items, Readable depth item) :
      Readable (depth + 1) (.arr items)
  | obj {depth : Nat} {fields : List (String × Json)} (distinct : (fields.map Prod.fst).Nodup)
      (each : ∀ field ∈ fields, Readable depth field.2) : Readable (depth + 1) (.obj fields)

/-- The start of a printed value is neither a blank nor a bracket that closes. -/
def Starts (text : List Char) : Prop :=
  ∃ c rest, text = c :: rest ∧ c ∉ [' ','\t','\n','\r',']','}']

theorem Readable.starts {depth : Nat} {value : Json} (readable : Readable depth value)
    (level : Nat) : Starts (render level value) := by
  cases readable with
  | null => exact ⟨'n',_,by rw [render]; rfl,by decide⟩
  | bool value => cases value <;> exact ⟨_,_,by rw [render]; rfl,by decide⟩
  | @int _ value few =>
    rw [render]
    cases value with
    | ofNat n =>
      obtain ⟨c,tail,written,digit⟩ := Text.toDigits_eq_cons n
      refine ⟨c,tail,written,?_⟩
      simp only [List.mem_cons,List.not_mem_nil,or_false]
      rintro (rfl | rfl | rfl | rfl | rfl | rfl) <;> exact absurd digit (by decide)
    | negSucc n => exact ⟨'-',_,rfl,by decide⟩
  | str value => exact ⟨'"',_,by rw [render]; rfl,by decide⟩
  | arr each =>
    rw [render,enclose]
    split <;> exact ⟨'[',_,rfl,by decide⟩
  | obj distinct each =>
    rw [render,enclose]
    split <;> exact ⟨'{',_,rfl,by decide⟩

theorem Starts.append {text : List Char} (starts : Starts text) (rest : List Char) :
    Starts (text ++ rest) := by
  obtain ⟨c,others,rfl,apart⟩ := starts
  exact ⟨c,others ++ rest,rfl,apart⟩

theorem Starts.intercalate {part : List Char} (starts : Starts part) (separator : List Char)
    (parts : List (List Char)) : Starts (separator.intercalate (part :: parts)) := by
  cases parts with
  | nil => rwa [List.intercalate_singleton]
  | cons second others =>
    rw [List.intercalate_cons_cons]
    exact (starts.append _).append _

theorem skipSpace_starts {text : List Char} (starts : Starts text) (rest : List Char) :
    skipSpace (text ++ rest) = text ++ rest := by
  obtain ⟨c,others,rfl,apart⟩ := starts
  simp only [List.mem_cons,not_or] at apart
  rw [List.cons_append,skipSpace,List.dropWhile_cons_of_neg]
  simp [apart]

theorem skipSpace_comma (rest : List Char) : skipSpace (',' :: rest) = ',' :: rest := rfl

theorem skipSpace_newLine (level : Nat) (text : List Char) :
    skipSpace (newLine level ++ text) = skipSpace text := by
  rw [skipSpace,skipSpace,List.dropWhile_append_of_pos]
  intro c member
  rcases List.mem_cons.mp member with rfl | blank
  · rfl
  · rw [List.eq_of_mem_replicate blank]
    rfl

theorem ends_newLine (level : Nat) (text : List Char) : Ends (newLine level ++ text) := by
  rintro c ⟨⟩
  exact .inr rfl

theorem ends_comma (text : List Char) : Ends (',' :: text) := by
  rintro c ⟨⟩
  exact .inl rfl

/-- Whether a value is read from its text at every level, whatever may follow it. -/
def Reads (depth : Nat) (value : Json) : Prop :=
  ∀ level fuel rest, Ends rest → 2 * (render level value).length ≤ fuel →
    readValue fuel depth (render level value ++ rest) = .ok (value,rest)

section Steps
variable {fuel depth : Nat} {text rest after : List Char} {item : Json}

theorem readItems_last (read : readValue fuel depth text = .ok (item,rest))
    (close : skipSpace rest = ']' :: after) (done : List Json) :
    readItems (fuel + 1) depth text done = .ok (.arr (item :: done).reverse,after) := by
  rw [readItems,read]
  dsimp only
  rw [close]
  rfl

theorem readItems_more (read : readValue fuel depth text = .ok (item,rest))
    (comma : skipSpace rest = ',' :: after) (done : List Json) :
    readItems (fuel + 1) depth text done = readItems fuel depth (skipSpace after) (item :: done) := by
  rw [readItems,read]
  dsimp only
  rw [comma]
  rfl

theorem readFields_last (name : String) (read : readValue fuel depth text = .ok (item,rest))
    (blank : skipSpace text = text) (close : skipSpace rest = '}' :: after)
    (done : List (String × Json)) :
    readFields (fuel + 1) depth (renderText name ++ [':',' '] ++ text) done =
      .ok (.obj (OrderedMap.ofList ((name,item) :: done).reverse).entries,after) := by
  have colon : skipSpace (':' :: ' ' :: text) = ':' :: ' ' :: text := rfl
  have space : skipSpace (' ' :: text) = text := blank
  simp [renderText,readFields,readString_renderText,colon,space,read,close]

theorem readFields_more (name : String) (read : readValue fuel depth text = .ok (item,rest))
    (blank : skipSpace text = text) (comma : skipSpace rest = ',' :: after)
    (done : List (String × Json)) :
    readFields (fuel + 1) depth (renderText name ++ [':',' '] ++ text) done =
      readFields fuel depth (skipSpace after) ((name,item) :: done) := by
  have colon : skipSpace (':' :: ' ' :: text) = ':' :: ' ' :: text := rfl
  have space : skipSpace (' ' :: text) = text := blank
  simp [renderText,readFields,readString_renderText,colon,space,read,comma]

end Steps

section Lists
variable {depth level above : Nat} {rest : List Char}

theorem readItems_render {items : List Json} (given : items ≠ [])
    (each : ∀ item ∈ items, Readable depth item ∧ Reads depth item) {fuel : Nat}
    (enough : 2 * ((',' :: newLine level).intercalate (renderItems level items)).length < fuel)
    (done : List Json) :
    readItems fuel depth ((',' :: newLine level).intercalate (renderItems level items) ++
        (newLine above ++ ']' :: rest)) done = .ok (.arr (done.reverse ++ items),rest) := by
  -- The fuel pays twice for every character, and the calls for one item cost at most that.
  induction items generalizing fuel done with
  | nil => exact absurd rfl given
  | cons item others ih =>
    obtain ⟨fuel,rfl⟩ := Nat.exists_eq_succ_of_ne_zero (by omega : fuel ≠ 0)
    rw [List.forall_mem_cons] at each
    obtain ⟨⟨_,reads⟩,further⟩ := each
    cases others with
    | nil =>
      rw [renderItems,renderItems,List.intercalate_singleton] at enough ⊢
      have read := reads level fuel _ (ends_newLine above (']' :: rest)) (by omega)
      rw [readItems_last read (skipSpace_newLine above _),List.reverse_cons]
    | cons second more =>
      rw [renderItems,renderItems,List.intercalate_cons_cons,← renderItems] at enough ⊢
      simp only [List.length_append,List.length_cons] at enough
      have starts : Starts ((',' :: newLine level).intercalate
          (renderItems level (second :: more))) := by
        rw [renderItems]
        exact ((further second List.mem_cons_self).1.starts level).intercalate _ _
      rw [List.append_assoc,List.append_assoc,List.cons_append]
      have read (tail : List Char) := reads level fuel _ (ends_comma tail) (by omega)
      rw [readItems_more (read _) (skipSpace_comma _),skipSpace_newLine,skipSpace_starts starts,
        ih (by simp) further (by omega)]
      simp

theorem readFields_render {fields done : List (String × Json)} (given : fields ≠ [])
    (distinct : ((done.reverse ++ fields).map Prod.fst).Nodup)
    (each : ∀ field ∈ fields, Readable depth field.2 ∧ Reads depth field.2) {fuel : Nat}
    (enough : 2 * ((',' :: newLine level).intercalate (renderFields level fields)).length < fuel) :
    readFields fuel depth ((',' :: newLine level).intercalate (renderFields level fields) ++
        (newLine above ++ '}' :: rest)) done = .ok (.obj (done.reverse ++ fields),rest) := by
  induction fields generalizing fuel done with
  | nil => exact absurd rfl given
  | cons field others ih =>
    obtain ⟨name,value⟩ := field
    obtain ⟨fuel,rfl⟩ := Nat.exists_eq_succ_of_ne_zero (by omega : fuel ≠ 0)
    rw [List.forall_mem_cons] at each
    obtain ⟨⟨readable,reads⟩,further⟩ := each
    dsimp only at readable reads
    have starts := readable.starts level
    cases others with
    | nil =>
      rw [renderFields,renderFields,List.intercalate_singleton] at enough ⊢
      simp only [List.length_append] at enough
      have read := reads level fuel _ (ends_newLine above ('}' :: rest)) (by omega)
      rw [List.append_assoc,readFields_last name read (skipSpace_starts starts _)
        (skipSpace_newLine above _),List.reverse_cons,
        OrderedMap.entries_ofList distinct]
    | cons second more =>
      obtain ⟨other,next⟩ := second
      rw [renderFields,renderFields,List.intercalate_cons_cons,← renderFields] at enough ⊢
      simp only [List.length_append,List.length_cons] at enough
      have following : Starts ((',' :: newLine level).intercalate
          (renderFields level ((other,next) :: more))) := by
        have quote : Starts (renderText other) := ⟨'"',_,rfl,by decide⟩
        rw [renderFields,List.append_assoc]
        exact (quote.append _).intercalate _ _
      have later : ((((name,value) :: done).reverse ++ (other,next) :: more).map Prod.fst).Nodup := by
        simpa using distinct
      have read (tail : List Char) := reads level fuel _ (ends_comma tail) (by omega)
      rw [List.append_assoc,List.append_assoc,List.append_assoc,List.cons_append,
        readFields_more name (read _) (skipSpace_starts starts _) (skipSpace_comma _),
        skipSpace_newLine,skipSpace_starts following,ih (by simp) later further (by omega)]
      simp

end Lists

section Values
variable {fuel depth : Nat} {rest : List Char}

theorem readValue_plain {c : Char} {tail : List Char} (quote : c ≠ '"') (bracket : c ≠ '[')
    (brace : c ≠ '\x7b') :
    readValue (fuel + 1) depth (c :: tail) = readPlain (c :: tail) := by
  rw [readValue.eq_def]
  dsimp only
  rw [if_neg (by simpa using quote),if_neg (by simpa using bracket),if_neg (by simpa using brace)]

theorem readValue_renderText (text : String) :
    readValue (fuel + 1) depth (renderText text ++ rest) = .ok (.str text,rest) := by
  rw [readValue.eq_def,renderText]
  simp [readString_renderText,Except.map]

theorem readValue_brackets : readValue (fuel + 1) (depth + 1) ('[' :: ']' :: rest) =
    .ok (.arr [],rest) := rfl

theorem readValue_braces : readValue (fuel + 1) (depth + 1) ('\x7b' :: '\x7d' :: rest) =
    .ok (.obj [],rest) := rfl

theorem readValue_items {level : Nat} {inside : List Char} (starts : Starts inside) :
    readValue (fuel + 1) (depth + 1) ('[' :: (newLine level ++ inside)) =
      readItems fuel depth inside [] := by
  have blank : skipSpace inside = inside := by simpa using skipSpace_starts starts []
  obtain ⟨c,others,rfl,apart⟩ := starts
  rw [readValue.eq_def]
  dsimp only
  rw [if_neg (by decide),if_pos (show ('[' == '[') = true from rfl),skipSpace_newLine,blank]
  split
  · next absent => cases absent
  · next same => cases same; exact absurd (by decide) apart
  · next equal _ => cases equal; rfl

theorem readValue_fields {level : Nat} {inside : List Char} (starts : Starts inside) :
    readValue (fuel + 1) (depth + 1) ('\x7b' :: (newLine level ++ inside)) =
      readFields fuel depth inside [] := by
  have blank : skipSpace inside = inside := by simpa using skipSpace_starts starts []
  obtain ⟨c,others,rfl,apart⟩ := starts
  rw [readValue.eq_def]
  dsimp only
  rw [if_neg (by decide),if_neg (by decide),if_pos (show ('\x7b' == '\x7b') = true from rfl),
    skipSpace_newLine,blank]
  split
  · next absent => cases absent
  · next same => cases same; exact absurd (by decide) apart
  · next equal _ => cases equal; rfl

end Values

theorem Readable.reads_of_succ {depth : Nat} {value : Json} (readable : Readable depth value)
    (reads : ∀ level fuel rest, Ends rest → 2 * (render level value).length ≤ fuel + 1 →
      readValue (fuel + 1) depth (render level value ++ rest) = .ok (value,rest)) :
    Reads depth value := by
  intro level fuel rest ends enough
  obtain ⟨c,tail,written,_⟩ := readable.starts level
  cases fuel with
  | zero => simp [written] at enough
  | succ fuel => exact reads level fuel rest ends enough

theorem Readable.readValue_render {depth : Nat} {value : Json} (readable : Readable depth value) :
    ∀ level fuel rest, Ends rest → 2 * (render level value).length ≤ fuel + 1 →
      readValue (fuel + 1) depth (render level value ++ rest) = .ok (value,rest) := by
  induction readable with
  | null =>
    intro level fuel rest _ _
    rw [render]
    exact readValue_plain (by decide) (by decide) (by decide)
  | bool value =>
    intro level fuel rest _ _
    cases value
    all_goals
      rw [render]
      exact readValue_plain (by decide) (by decide) (by decide)
  | @int _ value few =>
    intro level fuel rest ends _
    rw [render]
    have plain := readPlain_ofInt ends few
    cases value with
    | ofNat n =>
      obtain ⟨c,tail,written,digit⟩ := Text.toDigits_eq_cons n
      rw [Text.ofInt,written] at plain ⊢
      have apart (other : Char) (notDigit : other.isDigit = false) : c ≠ other := by
        rintro rfl
        rw [notDigit] at digit
        cases digit
      exact (readValue_plain (apart _ rfl) (apart _ rfl) (apart _ rfl)).trans plain
    | negSucc n => exact (readValue_plain (by decide) (by decide) (by decide)).trans plain
  | str value =>
    intro level fuel rest _ _
    rw [render]
    exact readValue_renderText value
  | @arr depth items each ih =>
    intro level fuel rest _ enough
    rw [render,enclose] at enough ⊢
    cases items with
    | nil => exact readValue_brackets
    | cons item others =>
      rw [renderItems,if_neg (by simp),← renderItems] at enough ⊢
      simp only [List.length_append,List.length_cons] at enough
      have starts : Starts ((',' :: newLine (level + 1)).intercalate
          (renderItems (level + 1) (item :: others))) := by
        rw [renderItems]
        exact ((each item List.mem_cons_self).starts _).intercalate _ _
      rw [List.cons_append,List.append_assoc,List.append_assoc,List.append_assoc,
        readValue_items (starts.append _)]
      exact readItems_render (by simp)
        (fun item member => ⟨each item member,(each item member).reads_of_succ (ih item member)⟩)
        (by omega) []
  | @obj depth fields distinct each ih =>
    intro level fuel rest _ enough
    rw [render,enclose] at enough ⊢
    cases fields with
    | nil => exact readValue_braces
    | cons field others =>
      obtain ⟨name,value⟩ := field
      rw [renderFields,if_neg (by simp),← renderFields] at enough ⊢
      simp only [List.length_append,List.length_cons] at enough
      have starts : Starts ((',' :: newLine (level + 1)).intercalate
          (renderFields (level + 1) ((name,value) :: others))) := by
        have quote : Starts (renderText name) := ⟨'"',_,rfl,by decide⟩
        rw [renderFields,List.append_assoc]
        exact (quote.append _).intercalate _ _
      rw [List.cons_append,List.append_assoc,List.append_assoc,List.append_assoc,
        readValue_fields (starts.append _)]
      exact readFields_render (by simp) distinct
        (fun field member => ⟨each field member,(each field member).reads_of_succ (ih field member)⟩)
        (by omega)

/-- A printed document is read as itself. -/
theorem read_print {value : Json} (readable : Readable depthLimit value) :
    Json.read value.print = .ok value := by
  have starts := readable.starts 0
  have reads := readable.readValue_render 0 (2 * value.print.length + 1) [] nofun (by
    rw [print]
    omega)
  have blank := skipSpace_starts starts []
  rw [List.append_nil] at reads blank
  have mark : ¬ (value.print.head? == some '\uFEFF') = true := by
    obtain ⟨c,rest,written,_⟩ := starts
    have plain := isPlain_print value
    rw [print,written,Text.isPlain_cons] at plain
    rw [print,written,List.head?_cons,beq_iff_eq,Option.some.injEq]
    rintro rfl
    exact absurd plain.1 (by decide)
  rw [read,if_neg mark]
  rw [print] at reads ⊢
  rw [blank,reads]
  rfl

end Json

end JavaAtlas
