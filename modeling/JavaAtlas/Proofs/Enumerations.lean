import JavaAtlas.Java.EnumConstants
import JavaAtlas.Proofs.Divisions
import JavaAtlas.Proofs.Keywords
import JavaAtlas.Proofs.Marks

/-! Enums read as they were written. The arguments of a constant may hold whatever their brackets
enclose; a separator in them ends nothing, and a body reaches to its closing brace as long as none
comes before. -/
namespace JavaAtlas.Enums
open Lexical Pattern
open Lexical.Division (through Uncut)
open Text (Blank OneWord)

section Arguments

/-- What may stand in the parentheses of a constant: brackets answer each other, a brace is no part
of it but in a literal, a literal ends before the parenthesis does, and no comment begins. -/
inductive Arguments : List Char → Prop where
  | nil : Arguments []
  | plain {c : Char} {rest : List Char} : c ∉ marks →
      ¬(c = '/' ∧ (rest.head? = some '/' ∨ rest.head? = some '*')) → Arguments rest →
      Arguments (c :: rest)
  | bracket {opening closing : Char} {inside rest : List Char} : opening ≠ '\x7b' →
      opening? closing = some opening → Arguments inside → Arguments rest →
      Arguments (opening :: (inside ++ closing :: rest))
  | literal {text rest : List Char} : IsLiteral text (rest ++ [')']) → '\x7d' ∉ text →
      Arguments rest → Arguments (text ++ rest)

variable {text more part : List Char} {closing opening separator : Char} {stack : List Char}
  {parts : List (List Char)}

/-- A closing bracket is none of the characters that would carry on a text in front of it. -/
theorem apart_of_closing (closes : opening? closing = some opening) :
    closing ≠ '"' ∧ closing ≠ '/' ∧ closing ≠ '*' := by
  rcases closing_cases closes with ⟨rfl,_⟩ | ⟨rfl,_⟩ | ⟨rfl,_⟩ <;> decide

theorem isInert_of_bracket (closes : opening? closing = some opening) :
    isInert opening = true ∧ isInert closing = true := by
  rcases closing_cases closes with ⟨rfl,rfl⟩ | ⟨rfl,rfl⟩ | ⟨rfl,rfl⟩ <;> decide

theorem literal_in_front {rest : List Char} (whole : IsLiteral text (rest ++ [')']))
    (other : closing ≠ '"') (more : List Char) : IsLiteral text (rest ++ closing :: more) := by
  apply whole.in_front _ (by simp)
  cases rest with
  | nil =>
    intro head
    exact absurd (Option.some.inj head) other
  | cons => exact id

theorem Arguments.maskComments (inside : Arguments text) (closes : opening? closing = some opening)
    (more : List Char) : maskComments (text ++ closing :: more) =
      text ++ maskComments (closing :: more) := by
  induction inside generalizing closing opening more with
  | nil => rfl
  | @plain c rest apart comment _ ih =>
    have bare : commentLength? (c :: (rest ++ closing :: more)) = none := by
      rw [commentLength?_eq_none]
      cases rest with
      | nil =>
        have other := apart_of_closing closes
        simp [other.2.1,other.2.2]
      | cons => exact comment
    rw [List.cons_append,maskComments_code (bare_of_not_mem apart) bare,ih closes]
    rfl
  | @bracket first last inside rest _ answers _ _ one two =>
    have inert := isInert_of_bracket answers
    rw [List.cons_append,List.append_assoc,List.cons_append,maskComments_cons inert.1,one answers,
      maskComments_cons inert.2,two closes]
    simp
  | @literal text rest whole _ _ ih =>
    have ends := literal_in_front whole (apart_of_closing closes).1 more
    obtain ⟨quote,inside,rfl,quoted⟩ := ends.opens
    have masked := maskComments_literal quoted ends.length
    rw [List.append_assoc,List.cons_append,masked,ih closes]
    simp

/-- Within brackets nothing is cut. -/
theorem Arguments.through (inside : Arguments text) (closes : opening? closing = some opening)
    (enclosed : stack ≠ []) (more : List Char) :
    through separator ⟨stack,part,parts⟩ (text ++ closing :: more) =
      through separator ⟨stack,text.reverse ++ part,parts⟩ (closing :: more) := by
  induction inside generalizing closing opening more stack part with
  | nil => rfl
  | @plain c rest apart _ _ ih =>
    have here := @Division.step_plain separator c stack part parts (isOpening_of_not_mem apart)
      (by simp [opening?_of_not_mem apart]) (.inr enclosed)
    rw [List.cons_append,Division.through_code (bare_of_not_mem apart),here,ih closes enclosed]
    simp
  | @bracket first last inside rest _ answers _ _ one two =>
    obtain ⟨opens,_,lastBare⟩ := isOpening_of_closing answers
    have firstBare := isQuote_of_isInert (isInert_of_bracket answers).1
    rw [List.cons_append,List.append_assoc,List.cons_append,Division.through_code firstBare,
      Division.step_opening opens,one answers (List.cons_ne_nil _ _),Division.through_code lastBare,
      Division.step_closing answers,two closes enclosed]
    simp
  | @literal text rest whole _ _ ih =>
    have ends := literal_in_front whole (apart_of_closing closes).1 more
    rw [List.append_assoc,Division.through_literal ends,ih closes enclosed]
    simp

theorem Arguments.unbraced (inside : Arguments text) : '\x7d' ∉ text := by
  induction inside with
  | nil => exact List.not_mem_nil
  | plain apart _ _ ih =>
    refine List.not_mem_cons_of_ne_of_not_mem ?_ ih
    rintro rfl
    exact apart (by decide)
  | bracket other answers _ _ one two =>
    rcases closing_cases answers with ⟨rfl,rfl⟩ | ⟨rfl,rfl⟩ | ⟨rfl,rfl⟩
    · simp [one,two]
    · simp [one,two]
    · exact absurd rfl other
  | literal _ bare _ ih => simp [bare,ih]

end Arguments

/-- The name that is read at a place between the commas. -/
def nameAt (place : List Char) : Option String :=
  (constantPattern.matchStart (Text.trim place)).map fun found => String.ofList (found.captured 1)

theorem constants_eq (body : List Char) : constants body =
    (splitTopLevel ',' ((splitTopLevel ';' body).headD [])).filterMap nameAt := rfl

section Blanks
variable {gap : List Char} {separator : Char}

theorem inert_blank (blank : ∀ c ∈ gap, Text.isBlank c = true) : ∀ c ∈ gap, isInert c = true := by
  intro c member
  have here := blank c member
  rw [isInert,bare_of_not_mem (not_mem_marks_of_isBlank here)]
  rw [Bool.not_false,Bool.true_and,bne_iff_ne]
  rintro rfl
  cases here

theorem uncut_blank (solid : Text.isBlank separator = false)
    (blank : ∀ c ∈ gap, Text.isBlank c = true) : Uncut separator gap := by
  refine Division.uncut_plain fun c member => ⟨not_mem_marks_of_isBlank (blank c member),?_⟩
  rintro rfl
  rw [blank c member] at solid
  cases solid

theorem nameAt_blank (blank : ∀ c ∈ gap, Text.isBlank c = true) : nameAt gap = none := by
  rw [nameAt,Text.trim_blank blank]
  rfl

theorem unbraced_blank (blank : ∀ c ∈ gap, Text.isBlank c = true) : '\x7d' ∉ gap :=
  fun member => by cases blank _ member

end Blanks

/-- A constant as it is written, with the blanks around it. -/
structure Constant where
  name : List Char
  arguments : Option (List Char) := none
  before : List Char := []
  after : List Char := []
  named : OneWord name
  enclosed : ∀ part, arguments = some part → Arguments part
  margin : ∀ c ∈ before ++ after, Text.isBlank c = true

namespace Constant
variable (constant : Constant) {separator : Char}

def brackets (arguments : Option (List Char)) : List Char :=
  arguments.elim [] fun part => '(' :: (part ++ [')'])

def core : List Char := constant.name ++ brackets constant.arguments

def text : List Char := constant.before ++ (constant.core ++ constant.after)

theorem blank_before : ∀ c ∈ constant.before, Text.isBlank c = true := fun c member =>
  constant.margin c (List.mem_append_left _ member)

theorem blank_after : ∀ c ∈ constant.after, Text.isBlank c = true := fun c member =>
  constant.margin c (List.mem_append_right _ member)

theorem inert_name : ∀ c ∈ constant.name, isInert c = true := fun c member =>
  isInert_of_isNameChar (isNameChar_of_isWord (constant.named.2 c member))

theorem maskComments_text (rest : List Char) :
    maskComments (constant.text ++ rest) = constant.text ++ maskComments rest := by
  have before := maskComments_inert (inert_blank constant.blank_before)
  have name := maskComments_inert constant.inert_name
  have after := maskComments_inert (inert_blank constant.blank_after)
  simp only [text,core,List.append_assoc]
  rw [before,name]
  unfold brackets
  cases given : constant.arguments with
  | none => rw [Option.elim_none,List.nil_append,after,List.nil_append]
  | some part =>
    have inside := (constant.enclosed part given).maskComments (show opening? ')' = some '(' from rfl)
    simp only [Option.elim_some,List.cons_append,List.append_assoc,List.nil_append]
    rw [maskComments_cons rfl,inside,maskComments_cons rfl,after]

/-- A constant is not cut by a separator in its arguments. -/
theorem uncut_text (blank : Text.isBlank separator = false) (letter : Text.isWord separator = false) :
    Uncut separator constant.text := by
  have name : Uncut separator constant.name := by
    refine Division.uncut_plain fun c member => ⟨not_mem_marks_of_isWord (constant.named.2 c member),?_⟩
    rintro rfl
    rw [constant.named.2 c member] at letter
    cases letter
  refine (uncut_blank blank constant.blank_before).append
    ((name.append ?_).append (uncut_blank blank constant.blank_after))
  intro part parts rest
  unfold brackets
  cases given : constant.arguments with
  | none => rfl
  | some inside =>
    simp only [Option.elim_some,List.cons_append,List.append_assoc,List.nil_append]
    rw [Division.through_code rfl,Division.step_opening rfl,
      (constant.enclosed inside given).through (show opening? ')' = some '(' from rfl)
        (List.cons_ne_nil _ _),
      Division.through_code rfl,Division.step_closing rfl]
    simp

theorem unbraced_text : '\x7d' ∉ constant.text := by
  have name : '\x7d' ∉ constant.name := fun member => by cases constant.named.2 _ member
  have inside : '\x7d' ∉ brackets constant.arguments := by
    unfold brackets
    cases given : constant.arguments with
    | none => exact List.not_mem_nil
    | some part => simp [(constant.enclosed part given).unbraced]
  simp [text,core,unbraced_blank constant.blank_before,unbraced_blank constant.blank_after,name,inside]

theorem trim_text : Text.trim constant.text = constant.core := by
  have named := constant.named
  apply Text.trim_between constant.blank_before constant.blank_after
  · simp [core,named.1]
  · exact named.solid _
  · intro c ends
    unfold core brackets at ends
    cases given : constant.arguments with
    | none =>
      rw [given,Option.elim_none,List.append_nil] at ends
      exact Text.isBlank_of_isWord (named.2 c (List.mem_of_getLast? ends))
    | some part =>
      rw [given,Option.elim_some,← List.cons_append,← List.append_assoc,List.getLast?_concat] at ends
      cases ends
      rfl

/-- The name is read, and what follows does not matter. -/
theorem nameAt_text : nameAt constant.text = some (String.ofList constant.name) := by
  let start : Cursor := ⟨0,none,constant.core,[]⟩
  have unmarked : leadingMark.Fails start := by
    apply Fails.seq
    apply fails_one
    intro c head
    have letter := Text.forall_head? constant.named.1 constant.named.2 _ c head
    rw [beq_eq_false_iff_ne]
    rintro rfl
    cases letter
  have passed : (many leadingMark).Takes start start := takes_many (takes_upTo_stop unmarked _)
  have starts : start.rest = constant.name ++ brackets constant.arguments := rfl
  have named := (takes_longest1_one starts constant.named.1 constant.named.2 fun c head => by
    unfold brackets at head
    cases given : constant.arguments with
    | none =>
      rw [given] at head
      cases head
    | some part =>
      rw [given] at head
      cases head
      rfl).capture starts 1
  have takes : constantPattern.Takes start _ := passed.seq named
  rw [nameAt,trim_text,matchStart,matchAt_of_takes takes]
  simp [Match.captured,Match.capture?,Cursor.hold,Cursor.past]

end Constant

/-- An enum as it is written. Blank places may follow the constants: one does behind a trailing comma,
or where there are no constants; and blanks may stand behind a semicolon and behind the enum. -/
structure Enumeration where
  name : List Char
  constants : List Constant
  voids : List (List Char) := []
  ending : Option (List Char) := none
  margin : List Char := []
  named : OneWord name
  blank : ∀ gap ∈ margin :: ending.toList ++ voids, ∀ c ∈ gap, Text.isBlank c = true

def enumWord : List Char := "enum".toList

theorem oneWord_enum : OneWord enumWord := by decide

theorem opens_enum : pattern.Opens [enumWord] := by
  intro border position rest found here
  obtain ⟨stop,way,_⟩ := reaches_of_matchAt here
  obtain ⟨_,⟨atBorder,rfl⟩,_,keyword,_,gap,_⟩ := way
  exact ahead_of_reaches oneWord_enum List.mem_cons_self atBorder (spells_of_literal keyword) gap

/-- Blanks before a body are no clause. -/
theorem fails_implements {cursor : Cursor} {more : List Char}
    (starts : cursor.rest = [' '] ++ '\x7b' :: more) (others : Pattern) :
    (seq blanks1 (seq (word "implements") others)).Fails cursor := by
  intro α go
  rw [Option.eq_none_iff_forall_ne_some]
  intro result ran
  obtain ⟨_,⟨middle,space,_,keyword,_⟩,_⟩ := reaches_of_run ran
  obtain ⟨gap,blank,one⟩ := blank_of_reaches space
  have shape := starts.symm.trans (one.append (spells_of_literal keyword)).1
  rw [List.append_assoc] at shape
  have next := (Text.leaves_once (by decide : ∀ c ∈ [' '], Text.isBlank c = true) blank.2 rfl rfl
    shape).2
  cases next

namespace Enumeration
variable (enumeration : Enumeration)

def listed : List Char :=
  [','].intercalate (enumeration.constants.map Constant.text ++ enumeration.voids)

def tail (ending : Option (List Char)) : List Char := ending.elim [] (';' :: ·)

def body : List Char := enumeration.listed ++ tail enumeration.ending

def text : List Char :=
  enumWord ++ (' ' :: (enumeration.name ++ (' ' :: '\x7b' :: (enumeration.body ++ ['\x7d']))))

theorem blank_void : ∀ gap ∈ enumeration.voids, ∀ c ∈ gap, Text.isBlank c = true :=
  fun gap member => enumeration.blank gap (List.mem_append_right _ member)

theorem blank_ending {gap : List Char} (given : enumeration.ending = some gap) :
    ∀ c ∈ gap, Text.isBlank c = true :=
  enumeration.blank gap (by simp [given])

theorem blank_margin : ∀ c ∈ enumeration.margin, Text.isBlank c = true :=
  enumeration.blank _ (by simp)

/-- What holds of constants and blanks holds of the places between the commas. -/
theorem forall_mem_places {holds : List Char → Prop}
    (constant : ∀ constant : Constant, holds constant.text)
    (blank : ∀ gap : List Char, (∀ c ∈ gap, Text.isBlank c = true) → holds gap) :
    ∀ place ∈ enumeration.constants.map Constant.text ++ enumeration.voids, holds place := by
  intro place member
  rcases List.mem_append.mp member with inside | inside
  · obtain ⟨written,_,rfl⟩ := List.mem_map.mp inside
    exact constant written
  · exact blank place (enumeration.blank_void place inside)

theorem uncut_places {separator : Char} (blank : Text.isBlank separator = false)
    (letter : Text.isWord separator = false) :
    ∀ place ∈ enumeration.constants.map Constant.text ++ enumeration.voids, Uncut separator place :=
  enumeration.forall_mem_places (fun constant => constant.uncut_text blank letter)
    fun _ => uncut_blank blank

/-- The constants end at the semicolon. -/
theorem headD_body : (splitTopLevel ';' enumeration.body).headD [] = enumeration.listed := by
  have listed : Uncut ';' enumeration.listed :=
    Division.uncut_intercalate (Division.uncut_plain (by decide)) (enumeration.uncut_places rfl rfl)
  unfold body tail
  cases given : enumeration.ending with
  | none =>
    have parts := Division.splitTopLevel_intercalate (by decide)
      (List.forall_mem_singleton.mpr listed)
    rw [List.intercalate_singleton] at parts
    rw [Option.elim_none,List.append_nil,parts]
    rfl
  | some gap =>
    have parts := Division.splitTopLevel_intercalate (by decide) (List.forall_mem_cons.mpr ⟨listed,
      List.forall_mem_singleton.mpr (uncut_blank rfl (enumeration.blank_ending given))⟩)
    rw [List.intercalate_cons_cons,List.intercalate_singleton] at parts
    rw [Option.elim_some]
    change (splitTopLevel ';' (enumeration.listed ++ ([';'] ++ gap))).headD [] = _
    rw [← List.append_assoc,parts]
    rfl

/-- The names of the constants are read off a body. -/
theorem constants_body : Enums.constants enumeration.body =
    enumeration.constants.map fun constant => String.ofList constant.name := by
  have names : (enumeration.constants.map Constant.text ++ enumeration.voids).filterMap nameAt =
      enumeration.constants.map fun constant => String.ofList constant.name := by
    have nameless : enumeration.voids.filterMap nameAt = [] := List.filterMap_eq_nil_iff.mpr
      fun gap member => nameAt_blank (enumeration.blank_void gap member)
    rw [List.filterMap_append,nameless,List.append_nil,List.filterMap_map]
    have each : nameAt ∘ Constant.text = fun constant => some (String.ofList constant.name) :=
      funext fun constant => constant.nameAt_text
    rw [each,List.filterMap_eq_map']
  have uncut := @enumeration.uncut_places ',' rfl rfl
  rw [constants_eq,headD_body,listed,← names]
  revert uncut
  cases enumeration.constants.map Constant.text ++ enumeration.voids with
  | nil => exact fun _ => rfl
  | cons first others =>
    intro uncut
    rw [Division.splitTopLevel_intercalate (by decide) uncut]

theorem maskComments_text (rest : List Char) :
    maskComments (enumeration.text ++ rest) = enumeration.text ++ maskComments rest := by
  have name := maskComments_inert fun c member =>
    isInert_of_isNameChar (isNameChar_of_isWord (enumeration.named.2 c member))
  have listed (rest : List Char) :
      maskComments (enumeration.listed ++ rest) = enumeration.listed ++ maskComments rest := by
    revert rest
    apply @Text.holds_intercalate fun text => ∀ rest,
      maskComments (text ++ rest) = text ++ maskComments rest
    · exact fun _ => rfl
    · intro one two first second rest
      rw [List.append_assoc,first,second,List.append_assoc]
    · exact maskComments_inert (by decide)
    · exact enumeration.forall_mem_places Constant.maskComments_text
        fun _ blank => maskComments_inert (inert_blank blank)
  have tail (rest : List Char) : maskComments (tail enumeration.ending ++ rest) =
      tail enumeration.ending ++ maskComments rest := by
    cases given : enumeration.ending with
    | none => rfl
    | some gap =>
      have blank := maskComments_inert (inert_blank (enumeration.blank_ending given))
      rw [Enumeration.tail,Option.elim_some,List.cons_append,maskComments_cons rfl,blank]
      rfl
  simp only [text,body,List.append_assoc,List.cons_append,List.nil_append]
  rw [maskComments_inert (by decide),maskComments_cons rfl,name,maskComments_cons rfl,
    maskComments_cons rfl,listed,tail,maskComments_cons rfl]

theorem unbraced_body : '\x7d' ∉ enumeration.body := by
  have listed : '\x7d' ∉ enumeration.listed := by
    apply @Text.holds_intercalate fun text => '\x7d' ∉ text
    · exact List.not_mem_nil
    · intro one two first second
      simp [first,second]
    · decide
    · exact enumeration.forall_mem_places Constant.unbraced_text fun _ => unbraced_blank
  unfold body tail
  cases given : enumeration.ending with
  | none => simpa using listed
  | some gap => simp [listed,unbraced_blank (enumeration.blank_ending given)]

/-- An enum is matched where it stands, up to its closing brace. -/
theorem matchAt_text {border : Option Char} (parted : border.any Text.isWord = false)
    (position : Nat) (rest : List Char) :
    ∃ found, pattern.matchAt border position (enumeration.text ++ rest) = some found ∧
      found.stop = position + enumeration.text.length ∧ found.captured 1 = enumeration.name ∧
      found.captured 2 = enumeration.body := by
  let start : Cursor := ⟨position,border,enumeration.text ++ rest,[]⟩
  have starts : start.rest = enumWord ++ ([' '] ++ (enumeration.name ++ ([' '] ++ ('\x7b' ::
      (enumeration.body ++ '\x7d' :: rest))))) := by simp [start,text]
  have atGap := Cursor.rest_past _ starts
  have atName := Cursor.rest_past _ atGap
  let named := (((start.past enumWord).past [' ']).past enumeration.name).hold 1
    ((start.past enumWord).past [' ']).position enumeration.name
  have atSpace : named.rest = [' '] ++ ('\x7b' :: (enumeration.body ++ '\x7d' :: rest)) :=
    Cursor.rest_past _ atName
  have atBrace := Cursor.rest_past _ atSpace
  have atBody := Cursor.rest_past ['\x7b'] atBrace
  let filled := (((named.past [' ']).past ['\x7b']).past enumeration.body).hold 2
    ((named.past [' ']).past ['\x7b']).position enumeration.body
  have atEnd : filled.rest = '\x7d' :: rest := Cursor.rest_past _ atBody
  have opens : Pattern.border.Takes start start := takes_opening oneWord_enum parted starts
  have spaced : Blank [' '] := ⟨by decide,by decide⟩
  have gap : blanks1.Takes (start.past enumWord) _ :=
    takes_blanks1 spaced atGap (enumeration.named.solid _)
  have name : (capture 1 (longest1 (one Text.isWord))).Takes ((start.past enumWord).past [' ']) named :=
    (takes_longest1_one atName enumeration.named.1 enumeration.named.2 fun c head => by
      cases head
      rfl).capture atName 1
  have clause : (optional (sequence [blanks1,word "implements",blanks1,longest1 (one fun c =>
      Text.isWord c || c == '.' || c == ',' || Text.isBlank c || c == '<' || c == '>')])).Takes named
        named := takes_optional (fails_implements atSpace _)
  have space : blanks.Takes named (named.past [' ']) :=
    takes_longest_one atSpace spaced.2 fun c head => by
      cases head
      rfl
  have brace : (char '\x7b').Takes (named.past [' ']) _ := takes_one atBrace rfl
  have within : ∀ c ∈ enumeration.body, (c != '\x7d') = true := by
    intro c member
    rw [bne_iff_ne]
    rintro rfl
    exact enumeration.unbraced_body member
  have body : (capture 2 (longest (one (· != '\x7d')))).Takes ((named.past [' ']).past ['\x7b'])
      filled := (takes_longest_one atBody within fun c head => by
    cases head
    rfl).capture atBody 2
  have closing : (char '\x7d').Takes filled _ := takes_one atEnd rfl
  have takes : pattern.Takes start (filled.past ['\x7d']) :=
    opens.seq ((takes_literal starts).seq (gap.seq (name.seq (clause.seq (space.seq (brace.seq
      (body.seq closing)))))))
  refine ⟨_,matchAt_of_takes takes,?_,?_,?_⟩
  · simp [filled,named,start,Cursor.past,Cursor.hold,text]
    omega
  · simp [filled,named,Match.captured,Match.capture?,Cursor.past,Cursor.hold]
  · simp [filled,named,Match.captured,Match.capture?,Cursor.past,Cursor.hold]

end Enumeration

/-- Enums one behind another. -/
def written (enumerations : List Enumeration) : List Char :=
  enumerations.flatMap fun enumeration => enumeration.text ++ enumeration.margin

theorem maskComments_written (enumerations : List Enumeration) :
    maskComments (written enumerations) = written enumerations := by
  unfold written
  induction enumerations with
  | nil => rfl
  | cons enumeration others ih =>
    rw [List.flatMap_cons,List.append_assoc,enumeration.maskComments_text,
      maskComments_inert (inert_blank enumeration.blank_margin),ih]

theorem misses_blank {gap : List Char} (blank : ∀ c ∈ gap, Text.isBlank c = true)
    (rest : List Char) : pattern.Misses gap rest := by
  rintro back ⟨front,rfl⟩ further border position
  rw [Option.eq_none_iff_forall_ne_some]
  intro found here
  obtain ⟨_,keyword,member,more,shape,_⟩ := opens_enum here
  rw [List.mem_singleton.mp member] at shape
  obtain ⟨c,back,rfl⟩ := List.exists_cons_of_ne_nil further
  have letter : c = 'e' := (List.cons.inj shape).1
  have here := blank c (by simp)
  rw [letter] at here
  cases here

theorem findFrom_written (enumerations : List Enumeration) {border : Option Char}
    (parted : border.any Text.isWord = false) (position : Nat) :
    (pattern.findFrom border position (written enumerations)).map
      (fun found => (found.captured 1,found.captured 2)) =
        enumerations.map fun enumeration => (enumeration.name,enumeration.body) := by
  induction enumerations generalizing border position with
  | nil => rfl
  | cons enumeration others ih =>
    have shape : written (enumeration :: others) =
        enumeration.text ++ (enumeration.margin ++ written others) := by simp [written]
    obtain ⟨found,here,stop,name,body⟩ := enumeration.matchAt_text parted position
      (enumeration.margin ++ written others)
    have next : (enumeration.margin.getLast?.or (enumeration.text.getLast?.or border)).any
        Text.isWord = false := by
      have last : enumeration.text.getLast? = some '\x7d' := by
        simp [Enumeration.text,List.getLast?_append,List.getLast?_cons]
      apply Text.any_or ?_ (by rw [last]; rfl)
      cases ends : enumeration.margin.getLast? with
      | none => rfl
      | some c =>
        exact Text.not_isWord_of_isBlank (enumeration.blank_margin c (List.mem_of_getLast? ends))
    rw [shape,findFrom_found (by simp [Enumeration.text,enumWord]) here stop,
      findFrom_misses (misses_blank enumeration.blank_margin _),List.map_cons,ih next,name,body]
    rfl

/-- Every enum is recorded under its name in the order of the text, with its constants in theirs. -/
theorem readAll_written {enumerations : List Enumeration}
    (distinct : (enumerations.map Enumeration.name).Nodup) (package : String) :
    (readAll (written enumerations) package).entries = enumerations.map fun enumeration =>
      (qualify package (String.ofList enumeration.name),
        enumeration.constants.map fun constant => String.ofList constant.name) := by
  let entry (found : List Char × List Char) : String × List String :=
    (qualify package (String.ofList found.1),constants found.2)
  have read : (pattern.findAll (maskComments (written enumerations))).map (fun found =>
      (qualify package (String.ofList (found.captured 1)),constants (found.captured 2))) =
      enumerations.map fun enumeration => (qualify package (String.ofList enumeration.name),
        enumeration.constants.map fun constant => String.ofList constant.name) := by
    have found := congrArg (List.map entry) (@findFrom_written enumerations none rfl 0)
    rw [List.map_map,List.map_map] at found
    rw [maskComments_written]
    refine found.trans (List.map_congr_left fun enumeration _ => ?_)
    rw [← enumeration.constants_body]
    rfl
  have keys : ((enumerations.map fun enumeration => (qualify package (String.ofList enumeration.name),
      enumeration.constants.map fun constant => String.ofList constant.name)).map Prod.fst).Nodup := by
    rw [List.map_map]
    have injective : Function.Injective fun name => qualify package (String.ofList name) := by
      intro one two same
      have texts := congrArg String.toList same
      simpa [qualify] using texts
    have mapped : ((enumerations.map Enumeration.name).map fun name =>
        qualify package (String.ofList name)).Nodup :=
      List.Pairwise.map _ (fun _ _ apart same => apart (injective same)) distinct
    rwa [List.map_map] at mapped
  rw [readAll,read,OrderedMap.entries_ofList keys]

/-- An enum with a separator in a literal and brackets within brackets. -/
def sampleColor : Enumeration where
  name := "Color".toList
  constants := [
    { name := "RED".toList, arguments := some "\",;)\"".toList, before := [' ']
      named := by decide
      enclosed := by
        rintro _ ⟨⟩
        exact .literal (@isLiteral_of_length '"' ",;)\"".toList ([] ++ [')']) rfl (by decide))
          (by decide) .nil
      margin := by decide },
    { name := "BLUE".toList, arguments := some "f(1,2)".toList, before := ['\n'], after := [' ']
      named := by decide
      enclosed := by
        rintro _ ⟨⟩
        refine .plain (by decide) (by decide)
          (@Arguments.bracket '(' ')' "1,2".toList [] (by decide) rfl ?_ .nil)
        exact .plain (by decide) (by decide) (.plain (by decide) (by decide)
          (.plain (by decide) (by decide) .nil))
      margin := by decide }]
  voids := [[]]
  ending := some [' ']
  margin := ['\n']
  named := by decide
  blank := by decide

def sampleFlag : Enumeration where
  name := "Flag".toList
  constants := []
  named := by decide
  blank := by decide

theorem readAll_written_color :
    written [sampleColor,sampleFlag] =
      "enum Color \x7b RED(\",;)\"),\nBLUE(f(1,2)) ,; \x7d\nenum Flag \x7b\x7d".toList ∧
    ([sampleColor,sampleFlag].map Enumeration.name).Nodup ∧
    (readAll (written [sampleColor,sampleFlag]) "p").entries =
      [("p.Color",["RED","BLUE"]),("p.Flag",[])] :=
  ⟨by decide,by decide,(readAll_written (by decide) "p").trans (by decide)⟩

end JavaAtlas.Enums
