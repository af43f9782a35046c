import JavaAtlas.Proofs.Declarations

/-! Methods as they are written one after another in the body of a class. The walk back from a
declaration stops behind the member before it, so each keeps its annotations to itself. -/
namespace JavaAtlas
open AnnotationUse (marked outlined)

/-- A method with its annotations, a line each. -/
structure Member where
  marks : List Mark
  declaration : Declaration
  calm : ∀ mark ∈ marks, ∀ c ∈ mark.name, c ≠ 'p' ∧ c ≠ 's'

namespace Lexical

theorem level_mark (mark : Mark) : Level mark.outline := by
  have name : Level ('@' :: mark.name) := by
    apply level_plain
    rw [List.forall_mem_cons]
    refine ⟨by decide,?_⟩
    intro c member
    have letter := mark.letters c member
    refine ⟨?_,?_,not_boundary (by decide) letter⟩
    · rintro rfl
      exact absurd letter (by decide)
    · rintro rfl
      exact absurd letter (by decide)
  have brackets : Level (Mark.brackets (mark.quoted.map fun inside =>
      List.replicate inside.length ' ')) := by
    cases mark.quoted with
    | none => exact level_nil
    | some inside =>
      have blank : Level ('(' :: (('"' :: (List.replicate inside.length ' ' ++ ['"'])) ++ [')'])) := by
        apply level_parentheses
        intro c member
        simp only [List.mem_cons,List.mem_append,List.not_mem_nil,or_false] at member
        rcases member with rfl | space | rfl
        · decide
        · rw [List.eq_of_mem_replicate space]
          decide
        · decide
      simpa [Mark.brackets] using blank
  exact name.append brackets

theorem level_outlined {gap : List Char} (level : Level gap) (marks : List Mark) :
    Level (outlined gap marks) := by
  induction marks with
  | nil => exact level_nil
  | cons mark marks ih =>
    rw [outlined,List.flatMap_cons]
    exact (level.append (level_mark mark)).append ih

end Lexical

namespace Declaration
variable (declaration : Declaration)

/-- The break and the indent in front of a line of the body. -/
def margin : List Char := '\n' :: indent

theorem gap_margin : Gap margin := .newLine (by decide) (by decide)

theorem head_eq : declaration.head = margin ++ spaced declaration.tokens := rfl

theorem mem_spaced {tokens : List (List Char)} {c : Char} (inside : c ∈ spaced tokens) :
    c = ' ' ∨ ∃ token ∈ tokens, c ∈ token := by
  obtain ⟨token,among,member⟩ := List.mem_flatMap.mp inside
  rcases List.mem_append.mp member with member | space
  · exact .inr ⟨token,among,member⟩
  · exact .inl (List.mem_singleton.mp space)

theorem inert_of_isTypeChar {c : Char} (typed : Method.isTypeChar c = true) :
    Lexical.isInert c = true ∧ c ≠ '@' := by
  simp only [Method.isTypeChar,Bool.or_eq_true,beq_iff_eq] at typed
  rcases typed with ((((((letter | rfl) | rfl) | rfl) | rfl) | rfl) | rfl) | rfl
  · refine ⟨isInert_of_isNameChar (isNameChar_of_isWord letter),?_⟩
    rintro rfl
    exact absurd letter (by decide)
  all_goals decide

theorem inert_text : ∀ c ∈ declaration.text, Lexical.isInert c = true ∧ c ≠ '@' := by
  intro c member
  rw [text,head_eq] at member
  simp only [List.mem_append] at member
  rcases member with (front | inside) | name | back
  · exact (by decide : ∀ c ∈ margin, Lexical.isInert c = true ∧ c ≠ '@') c front
  · rcases mem_spaced inside with rfl | ⟨token,among,member⟩
    · decide
    · exact inert_of_isTypeChar ((declaration.words token among).2 c member)
  · exact inert_of_isTypeChar (Method.isTypeChar_of_isWord (declaration.letters c name))
  · exact (by decide : ∀ c ∈ ['(',')',' ','\x7b'], Lexical.isInert c = true ∧ c ≠ '@') c back

theorem gap_text : Gap declaration.text where
  nonempty := by simp [text,head]
  inert c member := (declaration.inert_text c member).1
  unmarked member := (declaration.inert_text _ member).2 rfl
  apart := by rintro c same; cases same; decide

theorem words_spaced {tokens : List (List Char)}
    (solid : ∀ token ∈ tokens, token ≠ [] ∧ ∀ c ∈ token, Method.isTypeChar c = true) :
    Text.words (spaced tokens) = tokens := by
  induction tokens with
  | nil => rfl
  | cons token tokens ih =>
    rw [List.forall_mem_cons] at solid
    rw [spaced,List.flatMap_cons,List.append_assoc,List.singleton_append,
      Text.words_append (by decide),Text.words_single solid.1.1
        fun c member => solid_of_isTypeChar (solid.1.2 c member)]
    exact congrArg (token :: ·) (ih solid.2)

theorem words_head : Text.words declaration.head = declaration.tokens := by
  rw [head_eq,margin,indent]
  simp only [List.cons_append,List.nil_append]
  iterate 5 rw [Text.words_blank (by decide)]
  exact words_spaced declaration.words

theorem leading_blanks : declaration.text.takeWhile Text.isBlank = margin := by
  have solid {c : Char} := @solid_head declaration.name ['(',')',' ','\x7b'] declaration.tokens c
    declaration.words declaration.named declaration.letters
  rw [text,head_eq,List.append_assoc,List.takeWhile_append_of_pos (by decide)]
  cases shape : spaced declaration.tokens ++ (declaration.name ++ ['(',')',' ','\x7b']) with
  | nil => rfl
  | cons c rest =>
    rw [shape] at solid
    rw [List.takeWhile_cons_of_neg (by simp [solid rfl]),List.append_nil]

section Place
variable {front shadow back shade : List Char} {last : Char}

/-- The start of a declaration with its annotations is found behind the boundary before them. -/
theorem start_text (boundary : Lexical.isBoundary last = true) (marks : List Mark) :
    Lexical.declarationStart (shadow ++ last :: (outlined margin marks ++ (declaration.text ++ shade)))
      (shadow.length + 1 + (outlined margin marks).length + margin.length) = shadow.length + 1 := by
  have level : Lexical.Level margin := Lexical.level_plain (by decide)
  have start := @Lexical.declarationStart_level shadow _
    (spaced declaration.tokens ++ (declaration.name ++ ['(',')',' ','\x7b']) ++ shade) last boundary
    ((Lexical.level_outlined level marks).append level)
  rw [List.length_append,← Nat.add_assoc] at start
  simpa [text,head_eq] using start

/-- The method of a declaration behind annotations has its name, and they are its annotations. -/
theorem ofMatch_text (blocks : List Match) (same : front.length = shadow.length)
    (boundary : Lexical.isBoundary last = true) (marks : List Mark) :
    ∃ method, Method.ofMatch blocks
        (front ++ last :: (marked margin marks ++ (declaration.text ++ back)))
        (shadow ++ last :: (outlined margin marks ++ (declaration.text ++ shade)))
        (declaration.found (shadow.length + 1 + (outlined margin marks).length)) = some method ∧
      method.name = String.ofList declaration.name ∧
      method.annotations = marks.map Mark.use := by
  have capture (position : Nat) : (declaration.found position).capture? 1 =
      some ⟨position + declaration.head.length,
        position + declaration.head.length + declaration.name.length,declaration.name⟩ := rfl
  have place : (shadow ++ last :: outlined margin marks).length =
      shadow.length + 1 + (outlined margin marks).length := by
    rw [List.length_append,List.length_cons]
    omega
  have created : Text.words (Text.slice
      (shadow ++ last :: (outlined margin marks ++ (declaration.text ++ shade)))
      (shadow.length + 1 + (outlined margin marks).length)
      (shadow.length + 1 + (outlined margin marks).length + declaration.head.length)) =
        declaration.tokens := by
    have slice := Text.slice_append (shadow ++ last :: outlined margin marks) declaration.head
      (declaration.name ++ ['(',')',' ','\x7b'] ++ shade)
    rw [place] at slice
    rw [← declaration.words_head]
    simpa [text] using congrArg Text.words slice
  have inside : Text.slice
      (front ++ last :: (marked margin marks ++ (declaration.text ++ back))) (shadow.length + 1)
      (shadow.length + 1 + (outlined margin marks).length + declaration.text.length) =
        marked margin marks ++ declaration.text := by
    have slice := Text.slice_append (front ++ [last]) (marked margin marks ++ declaration.text) back
    rw [List.length_append,List.length_singleton,List.length_append,
      ← AnnotationUse.length_outlined,same,← Nat.add_assoc] at slice
    simpa using slice
  unfold Method.ofMatch
  rw [capture,Option.bind_some]
  dsimp only [found]
  rw [created,leading_blanks,start_text declaration boundary marks,inside,
    AnnotationUse.readAll_marked gap_margin declaration.gap_text marks,if_neg]
  · exact ⟨_,rfl,rfl,rfl⟩
  · rw [Bool.or_eq_true,beq_iff_eq,List.contains_iff_mem,not_or]
    exact ⟨declaration.free,declaration.declares⟩

end Place

end Declaration

/-- What an operation depends on in a method. -/
def Method.called (method : Method) : String × List AnnotationUse :=
  (method.name,method.annotations)

namespace Member
open Declaration (margin gap_margin)
open Lexical (maskComments maskLiterals)

/-- What follows the annotations: the declaration and a line that closes the empty body. -/
def rest (member : Member) : List Char := member.declaration.text ++ (margin ++ ['\x7d'])

def text (member : Member) : List Char := marked margin member.marks ++ member.rest

def outline (member : Member) : List Char := outlined margin member.marks ++ member.rest

def called (member : Member) : String × List AnnotationUse :=
  (String.ofList member.declaration.name,member.marks.map Mark.use)

theorem inert_rest (member : Member) : ∀ c ∈ member.rest, Lexical.isInert c = true := by
  intro c inside
  rcases List.mem_append.mp inside with inside | inside
  · exact (member.declaration.inert_text c inside).1
  · exact (by decide : ∀ c ∈ margin ++ ['\x7d'], Lexical.isInert c = true) c inside

theorem maskComments_members (members : List Member) (rest : List Char) :
    maskComments (members.flatMap text ++ rest) = members.flatMap text ++ maskComments rest := by
  induction members with
  | nil => rfl
  | cons member members ih =>
    rw [List.flatMap_cons,text]
    simp only [List.append_assoc]
    rw [AnnotationUse.maskComments_marked gap_margin,Lexical.maskComments_inert member.inert_rest,ih]

theorem maskLiterals_members (members : List Member) (rest : List Char) :
    maskLiterals (members.flatMap text ++ rest) = members.flatMap outline ++ maskLiterals rest := by
  induction members with
  | nil => rfl
  | cons member members ih =>
    rw [List.flatMap_cons,List.flatMap_cons,text,outline]
    simp only [List.append_assoc]
    rw [AnnotationUse.maskLiterals_marked gap_margin,Lexical.maskLiterals_inert member.inert_rest,ih]

/-- One declaration is found in a member, behind its annotations. -/
theorem findFrom_outline (member : Member) (border : Option Char) (position : Nat)
    (more : List Char) :
    ∃ before, Method.pattern.findFrom border position (member.outline ++ more) =
      member.declaration.found (position + (outlined margin member.marks).length) ::
        Method.pattern.findFrom before (position + member.outline.length) more := by
  have closing : Method.pattern.Misses (margin ++ ['\x7d']) more :=
    Method.misses_stop (by decide) (by decide) (by decide)
  refine ⟨(margin ++ ['\x7d']).getLast?.or (member.declaration.text.getLast?.or
    ((outlined margin member.marks).getLast?.or border)),?_⟩
  rw [outline,rest,List.append_assoc,List.append_assoc,
    Pattern.findFrom_misses (Method.misses_outlined (by decide) member.calm _),
    Pattern.findFrom_found (by simp [Declaration.text,Declaration.head])
      (member.declaration.matchAt_text _ _ _) rfl,Pattern.findFrom_misses closing]
  simp only [List.length_append,Nat.add_assoc]

/-- The methods found in the body of a class are those that are written there, with their
annotations. -/
theorem methods_members (blocks : List Match) (members : List Member) {tail : List Char}
    (misses : Method.pattern.Misses tail []) {front shadow : List Char} {last : Char}
    (same : front.length = shadow.length) (boundary : Lexical.isBoundary last = true)
    (border : Option Char) :
    ((Method.pattern.findFrom border (shadow.length + 1) (members.flatMap outline ++ tail)).filterMap
      (Method.ofMatch blocks (front ++ last :: (members.flatMap text ++ tail))
        (shadow ++ last :: (members.flatMap outline ++ tail)))).map Method.called =
      members.map called := by
  induction members generalizing front shadow last border with
  | nil =>
    have missed := Pattern.findFrom_misses misses border (shadow.length + 1)
    rw [List.append_nil,Pattern.findFrom_nil] at missed
    rw [List.flatMap_nil,List.flatMap_nil,List.nil_append,missed]
    rfl
  | cons member members ih =>
    obtain ⟨before,first⟩ := member.findFrom_outline border (shadow.length + 1)
      (members.flatMap outline ++ tail)
    obtain ⟨method,read,name,uses⟩ := @Declaration.ofMatch_text member.declaration front shadow
      (margin ++ '\x7d' :: (members.flatMap text ++ tail))
      (margin ++ '\x7d' :: (members.flatMap outline ++ tail)) last blocks same boundary member.marks
    -- The brace that closes the member is the boundary before the next one.
    have later := @ih (front ++ last :: (marked margin member.marks ++
        (member.declaration.text ++ margin)))
      (shadow ++ last :: (outlined margin member.marks ++ (member.declaration.text ++ margin))) '\x7d'
      (by simp [same,AnnotationUse.length_outlined]) rfl before
    have written : front ++ last :: ((member :: members).flatMap text ++ tail) =
        front ++ last :: (marked margin member.marks ++ (member.declaration.text ++
          (margin ++ '\x7d' :: (members.flatMap text ++ tail)))) := by
      simp [text,rest]
    have shaped : shadow ++ last :: ((member :: members).flatMap outline ++ tail) =
        shadow ++ last :: (outlined margin member.marks ++ (member.declaration.text ++
          (margin ++ '\x7d' :: (members.flatMap outline ++ tail)))) := by
      simp [outline,rest]
    have place : (shadow ++ last :: (outlined margin member.marks ++
        (member.declaration.text ++ margin))).length + 1 =
          shadow.length + 1 + member.outline.length := by
      simp [outline,rest]
      omega
    simp only [List.append_assoc,List.cons_append] at later
    rw [place] at later
    rw [written,shaped,List.flatMap_cons,List.append_assoc,first,List.filterMap_cons_some read,
      List.map_cons,List.map_cons,later,Method.called,name,uses,called]

end Member

end JavaAtlas
