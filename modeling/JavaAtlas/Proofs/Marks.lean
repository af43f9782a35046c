import JavaAtlas.Proofs.Extents
import JavaAtlas.Proofs.Masking
import JavaAtlas.Proofs.Words

/-! Annotations as they are written. Text between them that opens nothing separates them, and each
is read with its argument whatever that argument holds, since its literal is blank where extents
are measured. -/
namespace JavaAtlas
open Lexical (isInert maskComments maskLiterals)

/-- An annotation with no argument, or with a text in double quotes. -/
structure Mark where
  name : List Char
  quoted : Option (List Char) := none
  named : name ≠ []
  letters : ∀ c ∈ name, Header.isNameChar c = true
  plain : ∀ inside, quoted = some inside → ∀ c ∈ inside, c ≠ '"' ∧ c ≠ '\\' ∧ c ≠ '\n'

/-- A text between annotations: it opens no literal, comment or annotation, and does not carry on
the annotation before it. -/
structure Gap (text : List Char) : Prop where
  nonempty : text ≠ []
  inert : ∀ c ∈ text, isInert c = true
  unmarked : '@' ∉ text
  apart : ∀ c, text.head? = some c → Header.isNameChar c = false ∧ c ≠ '('

/-- A new line carries on no annotation. -/
theorem Gap.newLine {text : List Char} (inert : ∀ c ∈ text, isInert c = true)
    (unmarked : '@' ∉ text) : Gap ('\n' :: text) where
  nonempty := List.cons_ne_nil _ _
  inert := List.forall_mem_cons.mpr ⟨rfl,inert⟩
  unmarked := List.not_mem_cons_of_ne_of_not_mem (by decide) unmarked
  apart := by
    rintro c ⟨⟩
    decide

theorem isInert_of_isNameChar {c : Char} (letter : Header.isNameChar c = true) :
    isInert c = true := by
  rw [isInert,Bool.and_eq_true,Bool.not_eq_true',bne_iff_ne]
  constructor
  · rw [Bool.eq_false_iff]
    intro quote
    rw [Lexical.isQuote,Bool.or_eq_true,beq_iff_eq,beq_iff_eq] at quote
    rcases quote with rfl | rfl <;> exact absurd letter (by decide)
  · rintro rfl
    exact absurd letter (by decide)

theorem isBlank_of_isNameChar {c : Char} (letter : Header.isNameChar c = true) :
    Text.isBlank c = false := by
  rw [Header.isNameChar,Bool.or_eq_true,beq_iff_eq] at letter
  rcases letter with letter | rfl
  · exact Text.isBlank_of_isWord letter
  · rfl

theorem not_isNameChar_of_isBlank {c : Char} (blank : Text.isBlank c = true) :
    Header.isNameChar c = false := by
  rw [Bool.eq_false_iff]
  intro letter
  rw [isBlank_of_isNameChar letter] at blank
  cases blank

theorem isNameChar_of_isWord {c : Char} (letter : Text.isWord c = true) :
    Header.isNameChar c = true := by
  rw [Header.isNameChar,letter,Bool.true_or]

namespace Mark

def brackets (quoted : Option (List Char)) : List Char :=
  quoted.elim [] fun inside => '(' :: '"' :: (inside ++ ['"',')'])

def text (mark : Mark) : List Char := '@' :: (mark.name ++ brackets mark.quoted)

/-- The annotation with its literal blank. -/
def outline (mark : Mark) : List Char :=
  '@' :: (mark.name ++ brackets (mark.quoted.map fun inside => List.replicate inside.length ' '))

def use (mark : Mark) : AnnotationUse :=
  ⟨String.ofList mark.name,mark.quoted.map fun inside => String.ofList ('"' :: (inside ++ ['"']))⟩

theorem length_outline (mark : Mark) : mark.outline.length = mark.text.length := by
  unfold outline text brackets
  cases mark.quoted <;> simp

theorem inert_name (mark : Mark) : ∀ c ∈ '@' :: mark.name, isInert c = true := by
  rw [List.forall_mem_cons]
  exact ⟨rfl,fun c member => isInert_of_isNameChar (mark.letters c member)⟩

theorem maskComments_text (mark : Mark) (rest : List Char) :
    maskComments (mark.text ++ rest) = mark.text ++ maskComments rest := by
  have name := Lexical.maskComments_inert mark.inert_name
  unfold text brackets
  cases quoted : mark.quoted with
  | none => simpa using name rest
  | some inside =>
    have literal := @Lexical.maskComments_quoted inside (')' :: rest)
      (mark.plain inside quoted) (by simp)
    have whole := name ('(' :: '"' :: (inside ++ '"' :: ')' :: rest))
    rw [Lexical.maskComments_cons rfl,literal,Lexical.maskComments_cons rfl] at whole
    simpa using whole

theorem maskLiterals_text (mark : Mark) (rest : List Char) :
    maskLiterals (mark.text ++ rest) = mark.outline ++ maskLiterals rest := by
  have name := Lexical.maskLiterals_inert mark.inert_name
  unfold text outline brackets
  cases quoted : mark.quoted with
  | none => simpa using name rest
  | some inside =>
    have literal := @Lexical.maskLiterals_quoted inside (')' :: rest)
      (mark.plain inside quoted) (by simp)
    have whole := name ('(' :: '"' :: (inside ++ '"' :: ')' :: rest))
    rw [Lexical.maskLiterals_cons rfl,literal,Lexical.maskLiterals_cons rfl] at whole
    simpa using whole

theorem value_use {mark : Mark} {inside : List Char} (quoted : mark.quoted = some inside) :
    mark.use.value = some (String.ofList inside) := by
  simp [AnnotationUse.value,use,quoted,
    Lexical.firstStringLiteral_quoted (mark.plain inside quoted)]

end Mark

namespace AnnotationUse
open Pattern

/-- The annotation of a match of which the extent was found in the outline of a text. -/
def ofMatch (text : List Char) (found : Match) : AnnotationUse where
  name := String.ofList (found.captured 1)
  arguments := (found.capture? 2).map fun part =>
    String.ofList (Text.slice text part.start part.stop)

theorem readAll_eq (text : List Char) :
    readAll text = (pattern.findFrom none 0 (maskLiterals text)).map (ofMatch text) := rfl

theorem misses_unmarked {front rest : List Char} (unmarked : '@' ∉ front) :
    pattern.Misses front rest := by
  induction front with
  | nil => exact misses_nil pattern rest
  | cons c front ih =>
    rw [List.mem_cons,not_or] at unmarked
    refine misses_cons.mpr ⟨?_,ih unmarked.2⟩
    intro border position
    have fails : pattern.Fails ⟨position,border,c :: (front ++ rest),[]⟩ := by
      apply Fails.seq
      apply fails_one
      intro d head
      cases head
      rw [beq_eq_false_iff_ne]
      exact Ne.symm unmarked.1
    rw [matchAt,fails]
    rfl

/-- What is matched of an annotation where its literal is blank. -/
def extent (mark : Mark) : Extent where
  name := mark.name
  inside := mark.quoted.map fun inside => '"' :: (List.replicate inside.length ' ' ++ ['"'])
  named := mark.named
  letters := mark.letters
  unclosed := by
    intro part same
    obtain ⟨inside,_,rfl⟩ := Option.map_eq_some_iff.mp same
    simp

theorem text_extent (mark : Mark) : (extent mark).text = mark.outline := by
  simp only [Extent.text,extent,Extent.brackets,Mark.outline,Mark.brackets]
  cases mark.quoted <;> simp

theorem matchAt_outline (mark : Mark) {rest : List Char}
    (apart : ∀ c, rest.head? = some c → Header.isNameChar c = false ∧ c ≠ '(')
    (border : Option Char) (position : Nat) :
    ∃ found, pattern.matchAt border position (mark.outline ++ rest) = some found ∧
      found.stop = position + mark.outline.length ∧
      ∀ front back : List Char, front.length = position →
        ofMatch (front ++ (mark.text ++ back)) found = mark.use := by
  rw [← text_extent]
  refine ⟨_,(extent mark).matchAt_text apart border position,rfl,?_⟩
  rintro front back rfl
  simp only [ofMatch,Match.captured,Match.capture?,Extent.found,extent,Mark.use,Mark.text,
    Mark.brackets]
  cases quoted : mark.quoted with
  | none => simp
  | some inside =>
    have arguments := Text.slice_append (front ++ '@' :: (mark.name ++ ['(']))
      ('"' :: (inside ++ ['"'])) (')' :: back)
    have before : (front ++ '@' :: (mark.name ++ ['('])).length =
        front.length + mark.name.length + 2 := by
      simp
      omega
    rw [before] at arguments
    simp only [List.append_assoc,List.cons_append,List.nil_append,List.length_cons,
      List.length_append,List.length_nil] at arguments
    simp [arguments]

section Marked
variable {gap tail : List Char}

/-- Annotations one after another, each behind a gap. -/
def marked (gap : List Char) (marks : List Mark) : List Char :=
  marks.flatMap fun mark => gap ++ mark.text

def outlined (gap : List Char) (marks : List Mark) : List Char :=
  marks.flatMap fun mark => gap ++ mark.outline

theorem length_outlined (gap : List Char) (marks : List Mark) :
    (outlined gap marks).length = (marked gap marks).length := by
  induction marks with
  | nil => rfl
  | cons mark marks ih =>
    unfold outlined marked at ih ⊢
    simp [ih,mark.length_outline]

theorem maskComments_marked (separates : Gap gap) (marks : List Mark) (rest : List Char) :
    maskComments (marked gap marks ++ rest) = marked gap marks ++ maskComments rest := by
  induction marks with
  | nil => rfl
  | cons mark marks ih =>
    unfold marked at ih ⊢
    simp only [List.flatMap_cons,List.append_assoc]
    rw [Lexical.maskComments_inert separates.inert,mark.maskComments_text,ih]

theorem maskLiterals_marked (separates : Gap gap) (marks : List Mark) (rest : List Char) :
    maskLiterals (marked gap marks ++ rest) = outlined gap marks ++ maskLiterals rest := by
  induction marks with
  | nil => rfl
  | cons mark marks ih =>
    unfold marked outlined at ih ⊢
    simp only [List.flatMap_cons,List.append_assoc]
    rw [Lexical.maskLiterals_inert separates.inert,mark.maskLiterals_text,ih]

theorem apart_outlined (separates : Gap gap) (ends : Gap tail) (marks : List Mark) (c : Char)
    (head : (outlined gap marks ++ tail).head? = some c) :
    Header.isNameChar c = false ∧ c ≠ '(' := by
  cases marks with
  | nil => exact ends.apart c head
  | cons mark marks =>
    obtain ⟨d,gap,rfl⟩ := List.exists_cons_of_ne_nil separates.nonempty
    exact separates.apart c head

theorem findFrom_outlined (separates : Gap gap) (ends : Gap tail) (marks : List Mark)
    (border : Option Char) (front : List Char) :
    (pattern.findFrom border front.length (outlined gap marks ++ tail)).map
      (ofMatch (front ++ (marked gap marks ++ tail))) = marks.map Mark.use := by
  induction marks generalizing border front with
  | nil =>
    have missed := findFrom_misses (@misses_unmarked tail [] ends.unmarked) border front.length
    rw [List.append_nil,findFrom_nil] at missed
    simp [outlined,missed]
  | cons mark marks ih =>
    obtain ⟨found,matched,stop,use⟩ := matchAt_outline mark (apart_outlined separates ends marks)
      (gap.getLast?.or border) (front.length + gap.length)
    have here := findFrom_found (by simp [Mark.outline]) matched stop
    have later := ih (mark.outline.getLast?.or (gap.getLast?.or border))
      (front ++ (gap ++ mark.text))
    unfold marked outlined at ih here later ⊢
    simp only [List.flatMap_cons,List.append_assoc]
    rw [findFrom_misses (misses_unmarked separates.unmarked),here,List.map_cons,List.map_cons]
    have whole := use (front ++ gap)
      (marks.flatMap (fun mark => gap ++ mark.text) ++ tail) (by simp)
    rw [List.append_assoc] at whole
    rw [whole]
    simp only [List.length_append,List.append_assoc,mark.length_outline,← Nat.add_assoc] at later ⊢
    rw [later]

/-- What is read where annotations stand, one after another. -/
theorem readAll_marked (separates : Gap gap) (ends : Gap tail) (marks : List Mark) :
    readAll (marked gap marks ++ tail) = marks.map Mark.use := by
  have inert := Lexical.maskLiterals_inert ends.inert []
  rw [List.append_nil] at inert
  rw [readAll_eq,maskLiterals_marked separates,inert]
  have found := findFrom_outlined separates ends marks none []
  simpa [maskLiterals,Lexical.literalTokens,Lexical.tokensFrom] using found

end Marked

end AnnotationUse

end JavaAtlas
