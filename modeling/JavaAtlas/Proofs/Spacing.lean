import JavaAtlas.Proofs.Words
import Mathlib.Data.List.DropRight

/-! Texts in one line. Joining the words of a text by spaces is told character by character: every
run of blanks becomes one space, and what is not blank stays in its place between them. -/
namespace JavaAtlas.Text
variable {c d : Char} {text front rest : List Char}

/-- Every run of blanks becomes one space. -/
def collapse : List Char → List Char
  | [] => []
  | c :: rest => if isBlank c then ' ' :: (collapse rest).dropWhile isBlank else c :: collapse rest

theorem collapse_solid (solid : isBlank c = false) (rest : List Char) :
    collapse (c :: rest) = c :: collapse rest := by
  rw [collapse,solid]
  rfl

/-- In front of a character that is not blank the text may be divided. -/
theorem collapse_append (solid : isBlank c = false) (front rest : List Char) :
    collapse (front ++ c :: rest) = collapse front ++ c :: collapse rest := by
  induction front with
  | nil => exact collapse_solid solid rest
  | cons d front ih =>
    rw [List.cons_append,collapse,collapse,ih,dropWhile_append_cons solid]
    split <;> rfl

theorem collapse_word (solid : ∀ c ∈ front, isBlank c = false) (rest : List Char) :
    collapse (front ++ rest) = front ++ collapse rest := by
  induction front with
  | nil => rfl
  | cons c front ih =>
    rw [List.forall_mem_cons] at solid
    rw [List.cons_append,collapse_solid solid.1,ih solid.2]
    rfl

theorem collapse_gap (blank : ∀ c ∈ text, isBlank c = true) :
    collapse text = [] ∨ collapse text = [' '] := by
  induction text with
  | nil => exact .inl rfl
  | cons c rest ih =>
    rw [List.forall_mem_cons] at blank
    right
    rw [collapse,if_pos blank.1]
    rcases ih blank.2 with empty | space
    · rw [empty]; rfl
    · rw [space]; rfl

theorem eq_space_of_mem_collapse (member : c ∈ collapse text) (blank : isBlank c = true) :
    c = ' ' := by
  induction text with
  | nil => cases member
  | cons d rest ih =>
    rw [collapse] at member
    split at member
    · rcases List.mem_cons.mp member with space | later
      · exact space
      · exact ih ((List.dropWhile_suffix _).subset later)
    · next solid =>
      rcases List.mem_cons.mp member with rfl | later
      · exact absurd blank solid
      · exact ih later

/-- No two spaces stand side by side. -/
theorem not_doubled (text : List Char) : ¬[' ',' '] <:+: collapse text := by
  induction text with
  | nil => exact fun found => absurd found.length_le (by decide)
  | cons c rest ih =>
    rw [collapse]
    split
    · rw [List.infix_cons_iff,not_or]
      refine ⟨?_,fun found => ih (found.trans (List.dropWhile_suffix _).isInfix)⟩
      rintro ⟨after,shape⟩
      have solid := List.head?_dropWhile_not isBlank (collapse rest)
      rw [← (List.cons.inj shape).2] at solid
      cases (solid : isBlank ' ' = false)
    · next solid =>
      rw [List.infix_cons_iff,not_or]
      refine ⟨?_,ih⟩
      rintro ⟨after,shape⟩
      rw [← (List.cons.inj shape).1] at solid
      exact solid rfl

theorem words_cons (solid : isBlank c = false) (next : isBlank d = false) (rest : List Char) :
    ∃ word others, words (d :: rest) = word :: others ∧
      words (c :: d :: rest) = (c :: word) :: others := by
  obtain ⟨word,others,shape⟩ := List.exists_cons_of_ne_nil (List.splitOnP_ne_nil isBlank rest)
  refine ⟨d :: word,others.filter fun word => !word.isEmpty,?_,?_⟩ <;>
    simp [words,List.splitOnP_cons_eq_if_modifyHead,solid,next,shape]

theorem words_ne_nil (solid : isBlank c = false) (front : List Char) : words (front ++ [c]) ≠ [] := by
  induction front with
  | nil => rw [List.nil_append,words_single (List.cons_ne_nil c []) (by simpa using solid)]; simp
  | cons d front ih =>
    cases blank : isBlank d with
    | true => rwa [List.cons_append,words_blank blank]
    | false =>
      cases shape : front ++ [c] with
      | nil => simp at shape
      | cons e rest =>
        rw [List.cons_append,shape]
        cases next : isBlank e with
        | true =>
          rw [← List.singleton_append,words_append next,
            words_single (List.cons_ne_nil d []) (by simpa using blank)]
          simp
        | false =>
          obtain ⟨word,others,_,whole⟩ := words_cons blank next rest
          rw [whole]
          simp

theorem singleSpaced_cons (solid : isBlank c = false) (next : isBlank d = false)
    (rest : List Char) : singleSpaced (c :: d :: rest) = c :: singleSpaced (d :: rest) := by
  obtain ⟨word,others,later,whole⟩ := words_cons solid next rest
  rw [singleSpaced,singleSpaced,whole,later]
  cases others <;> simp

theorem singleSpaced_break (solid : isBlank c = false) (blank : isBlank d = true)
    (further : words rest ≠ []) :
    singleSpaced (c :: d :: rest) = c :: ' ' :: singleSpaced (d :: rest) := by
  obtain ⟨word,others,shape⟩ := List.exists_cons_of_ne_nil further
  have first : words (c :: d :: rest) = [c] :: words rest := by
    rw [← List.singleton_append,words_append blank,
      words_single (List.cons_ne_nil c []) (by simpa using solid)]
    rfl
  rw [singleSpaced,singleSpaced,first,words_blank blank,shape,List.intercalate_cons_cons]
  rfl

/-- Joining the words of a text that does not end with a blank leaves out the space that it may
begin with. -/
theorem singleSpaced_eq (solid : isBlank c = false) (front : List Char) :
    singleSpaced (front ++ [c]) = (collapse (front ++ [c])).dropWhile isBlank := by
  induction front with
  | nil =>
    rw [List.nil_append,collapse_solid solid,List.dropWhile_cons_of_neg (by simp [solid]),
      singleSpaced,words_single (List.cons_ne_nil c []) (by simpa using solid)]
    simp [collapse]
  | cons d front ih =>
    cases first : isBlank d with
    | true =>
      rw [List.cons_append,singleSpaced,words_blank first,← singleSpaced,ih,collapse,if_pos first,
        List.dropWhile_cons_of_pos (by rfl),List.dropWhile_idempotent]
    | false =>
      have further := words_ne_nil solid front
      rw [List.cons_append,collapse_solid first,List.dropWhile_cons_of_neg (by simp [first])]
      cases shape : front ++ [c] with
      | nil => simp at shape
      | cons e rest =>
        rw [shape] at ih further
        cases next : isBlank e with
        | true =>
          rw [words_blank next] at further
          rw [singleSpaced_break first next further,ih,collapse,if_pos next,
            List.dropWhile_cons_of_pos (by rfl),List.dropWhile_idempotent]
        | false =>
          rw [singleSpaced_cons first next,ih,collapse_solid next,
            List.dropWhile_cons_of_neg (by simp [next])]

theorem head?_dropWhile {kind : Char → Bool} (head : (text.dropWhile kind).head? = some c) :
    kind c = false := by
  have first := List.head?_dropWhile_not kind text
  rwa [head] at first

/-- One line: every blank is a single space between words. -/
theorem oneLine_of_prefix {part : List Char} (begins : part <+: (collapse text).dropWhile isBlank) :
    (∀ c ∈ part, isBlank c = true → c = ' ') ∧
      (∀ c, part.head? = some c → isBlank c = false) ∧ ¬[' ',' '] <:+: part := by
  have inside := List.dropWhile_suffix isBlank (l := collapse text)
  refine ⟨fun c member => eq_space_of_mem_collapse (inside.subset (begins.subset member)),?_,
    fun doubled => not_doubled text (doubled.trans (begins.isInfix.trans inside.isInfix))⟩
  intro c head
  obtain ⟨others,rfl⟩ := List.head?_eq_some_iff.mp head
  obtain ⟨more,shape⟩ := begins
  exact head?_dropWhile (congrArg List.head? shape.symm)

theorem singleSpaced_append {word : List Char} (nonempty : word ≠ [])
    (letters : ∀ c ∈ word, isBlank c = false) (solid : isBlank c = false) (before after : List Char) :
    singleSpaced (before ++ (word ++ (after ++ [c]))) =
      (collapse before).dropWhile isBlank ++ (word ++ collapse (after ++ [c])) := by
  obtain ⟨d,others,rfl⟩ := List.exists_cons_of_ne_nil nonempty
  have first := letters d List.mem_cons_self
  have whole := singleSpaced_eq solid (before ++ (d :: others ++ after))
  have parts := collapse_append first before (others ++ (after ++ [c]))
  have inner := collapse_word letters (after ++ [c])
  simp only [List.append_assoc,List.cons_append] at whole parts inner ⊢
  rw [collapse_solid first] at inner
  rw [whole,parts,dropWhile_append_cons first,inner]

end JavaAtlas.Text
