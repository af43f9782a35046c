import JavaAtlas.Lexical.Boundary
import JavaAtlas.Proofs.Quotations

/-! Division of a text at a separator. Brackets open and close, a literal is passed over as a whole,
and a part ends where a separator stands outside of both. -/
namespace JavaAtlas.Lexical

/-- The quotes and brackets. Every other character stands for itself wherever a text is divided. -/
def marks : List Char := ['"','\'','(','[','\x7b',')',']','\x7d']

section Marks
variable {c : Char}

theorem not_mem_marks_of_isWord (letter : Text.isWord c = true) : c ∉ marks := by
  have apart : ∀ mark ∈ marks, Text.isWord mark = false := by decide
  intro member
  rw [apart c member] at letter
  cases letter

theorem not_mem_marks_of_isBlank (blank : Text.isBlank c = true) : c ∉ marks := by
  have apart : ∀ mark ∈ marks, Text.isBlank mark = false := by decide
  intro member
  rw [apart c member] at blank
  cases blank

theorem bare_of_not_mem (apart : c ∉ marks) : isQuote c = false := by
  rw [Bool.eq_false_iff]
  intro quoted
  rw [isQuote,Bool.or_eq_true,beq_iff_eq,beq_iff_eq] at quoted
  rcases quoted with rfl | rfl <;> exact apart (by decide)

theorem isOpening_of_not_mem (apart : c ∉ marks) : isOpening c = false := by
  rw [Bool.eq_false_iff]
  intro opening
  rw [isOpening,Bool.or_eq_true,Bool.or_eq_true,beq_iff_eq,beq_iff_eq,beq_iff_eq] at opening
  rcases opening with (rfl | rfl) | rfl <;> exact apart (by decide)

/-- The closing brackets with those that they answer. -/
theorem closing_cases {opening : Char} (closes : opening? c = some opening) :
    (c = ')' ∧ opening = '(') ∨ (c = ']' ∧ opening = '[') ∨ (c = '\x7d' ∧ opening = '\x7b') := by
  unfold opening? at closes
  split at closes
  · next round => exact .inl ⟨beq_iff_eq.mp round,(Option.some.inj closes).symm⟩
  · split at closes
    · next square => exact .inr (.inl ⟨beq_iff_eq.mp square,(Option.some.inj closes).symm⟩)
    · split at closes
      · next curly => exact .inr (.inr ⟨beq_iff_eq.mp curly,(Option.some.inj closes).symm⟩)
      · cases closes

theorem opening?_of_not_mem (apart : c ∉ marks) : opening? c = none := by
  cases closes : opening? c with
  | none => rfl
  | some opening =>
    rcases closing_cases closes with ⟨rfl,_⟩ | ⟨rfl,_⟩ | ⟨rfl,_⟩ <;> exact absurd (by decide) apart

theorem isOpening_of_closing {opening : Char} (closes : opening? c = some opening) :
    isOpening opening = true ∧ isOpening c = false ∧ isQuote c = false := by
  rcases closing_cases closes with ⟨rfl,rfl⟩ | ⟨rfl,rfl⟩ | ⟨rfl,rfl⟩ <;> decide

end Marks

namespace Division
variable {separator c opening : Char} {stack part text rest : List Char} {parts : List (List Char)}

section Steps

theorem step_opening (opens : isOpening c = true) :
    step separator ⟨stack,part,parts⟩ (.code c) = ⟨c :: stack,c :: part,parts⟩ := by
  simp [step,opens]

theorem step_closing (closes : opening? c = some opening) :
    step separator ⟨opening :: stack,part,parts⟩ (.code c) = ⟨stack,c :: part,parts⟩ := by
  simp [step,closes,(isOpening_of_closing closes).2.1]

theorem step_separator (apart : separator ∉ marks) :
    step separator ⟨[],part,parts⟩ (.code separator) = ⟨[],[],part.reverse :: parts⟩ := by
  simp [step,isOpening_of_not_mem apart]

/-- A character that is neither a bracket in force nor a separator in force is read. -/
theorem step_plain (opens : isOpening c = false)
    (answers : ∀ opening, stack.head? = some opening → opening? c ≠ some opening)
    (kept : c ≠ separator ∨ stack ≠ []) :
    step separator ⟨stack,part,parts⟩ (.code c) = ⟨stack,c :: part,parts⟩ := by
  cases stack with
  | nil =>
    have other : c ≠ separator := kept.resolve_right (· rfl)
    simp [step,opens,other]
  | cons opening stack =>
    have apart := answers opening rfl
    simp [step,opens,Ne.symm apart]

end Steps

/-- The division when a text has been read. -/
def through (separator : Char) (division : Division) (text : List Char) : Division :=
  (literalTokens text).foldl (step separator) division

theorem splitTopLevel_eq (separator : Char) (text : List Char) :
    splitTopLevel separator text = (through separator ⟨[],[],[]⟩ text).finish := rfl

theorem through_nil (separator : Char) (division : Division) :
    through separator division [] = division := rfl

theorem through_code (bare : isQuote c = false) (division : Division) (rest : List Char) :
    through separator division (c :: rest) =
      through separator (division.step separator (.code c)) rest := by
  rw [through,literalTokens_code bare]
  rfl

theorem through_literal (whole : IsLiteral text rest) :
    through separator ⟨stack,part,parts⟩ (text ++ rest) =
      through separator ⟨stack,text.reverse ++ part,parts⟩ rest := by
  obtain ⟨quote,inside,rfl,quoted⟩ := whole.opens
  rw [through,List.cons_append,literalTokens_literal quoted whole.length]
  rfl

/-- What has neither marks nor separators is read as it is. -/
theorem through_plain (plain : ∀ c ∈ text, c ∉ marks ∧ c ≠ separator) (rest : List Char) :
    through separator ⟨stack,part,parts⟩ (text ++ rest) =
      through separator ⟨stack,text.reverse ++ part,parts⟩ rest := by
  induction text generalizing part with
  | nil => rfl
  | cons c text ih =>
    rw [List.forall_mem_cons] at plain
    obtain ⟨⟨apart,other⟩,others⟩ := plain
    have here : step separator ⟨stack,part,parts⟩ (.code c) = ⟨stack,c :: part,parts⟩ :=
      step_plain (isOpening_of_not_mem apart) (by simp [opening?_of_not_mem apart]) (.inl other)
    rw [List.cons_append,through_code (bare_of_not_mem apart),here,ih others]
    simp

section Uncut

/-- A text that is read into one part, whatever follows. -/
def Uncut (separator : Char) (text : List Char) : Prop :=
  ∀ part parts rest, through separator ⟨[],part,parts⟩ (text ++ rest) =
    through separator ⟨[],text.reverse ++ part,parts⟩ rest

variable {one two : List Char} {texts : List (List Char)}

theorem Uncut.append (first : Uncut separator one) (second : Uncut separator two) :
    Uncut separator (one ++ two) := by
  intro part parts rest
  rw [List.append_assoc,first,second,List.reverse_append,List.append_assoc]

theorem uncut_plain (plain : ∀ c ∈ text, c ∉ marks ∧ c ≠ separator) : Uncut separator text :=
  fun _ _ => through_plain plain

theorem uncut_intercalate {between : List Char} (joined : Uncut separator between)
    (uncut : ∀ text ∈ texts, Uncut separator text) :
    Uncut separator (between.intercalate texts) :=
  Text.holds_intercalate (fun _ _ _ => rfl) (fun _ _ => Uncut.append) joined uncut

theorem finish_through (apart : separator ∉ marks) {first : List Char} {others : List (List Char)}
    (uncut : ∀ text ∈ first :: others, Uncut separator text) (parts : List (List Char)) :
    (through separator ⟨[],[],parts⟩ ([separator].intercalate (first :: others))).finish =
      parts.reverse ++ first :: others := by
  induction others generalizing first parts with
  | nil =>
    have whole := uncut first (List.mem_singleton_self first) [] parts []
    rw [List.append_nil] at whole
    rw [List.intercalate_singleton,whole,through_nil]
    simp [finish]
  | cons next others ih =>
    rw [List.forall_mem_cons] at uncut
    rw [List.intercalate_cons_cons,List.append_assoc,uncut.1,List.singleton_append,
      through_code (bare_of_not_mem apart),step_separator apart,ih uncut.2]
    simp

/-- A text is divided where its parts were joined. -/
theorem splitTopLevel_intercalate (apart : separator ∉ marks) {first : List Char}
    {others : List (List Char)} (uncut : ∀ text ∈ first :: others, Uncut separator text) :
    splitTopLevel separator ([separator].intercalate (first :: others)) = first :: others :=
  finish_through apart uncut []

end Uncut

end Division

end JavaAtlas.Lexical
