import JavaAtlas.Lexical.Mask
import Mathlib.Data.List.Basic

/-! Masks read token by token. Where a literal ends is settled by its own characters, and a comment
gives way to blanks, which open nothing; so a mask has the tokens of the text it was made of, less
the comments, and masking comments again finds none. -/
namespace JavaAtlas.Lexical

section Literal
variable {quote : Char}

theorem plainEnd_escape (c : Char) (rest : List Char) (position : Nat) :
    plainEnd quote ('\\' :: c :: rest) position = plainEnd quote rest (position + 2) := by
  simp [plainEnd]

theorem plainEnd_close {c : Char} (plain : c ≠ '\\') (closes : c = quote ∨ c = '\n')
    (rest : List Char) (position : Nat) : plainEnd quote (c :: rest) position = position + 1 := by
  rw [plainEnd.eq_def]
  simp [plain,closes]

theorem plainEnd_step {c : Char} (plain : c ≠ '\\') (inside : ¬(c = quote ∨ c = '\n'))
    (rest : List Char) (position : Nat) :
    plainEnd quote (c :: rest) position = plainEnd quote rest (position + 1) := by
  rw [plainEnd.eq_def]
  simp only [not_or] at inside
  simp [plain,inside]

theorem le_plainEnd (text : List Char) (position : Nat) :
    position ≤ plainEnd quote text position := by
  fun_induction plainEnd quote text position <;> omega

theorem plainEnd_le (text : List Char) (position : Nat) :
    plainEnd quote text position ≤ position + text.length := by
  fun_induction plainEnd quote text position <;> simp only [List.length_cons,List.length_nil] <;> omega

theorem lt_plainEnd {text : List Char} (further : text ≠ []) (position : Nat) :
    position < plainEnd quote text position := by
  fun_induction plainEnd quote text position with
  | case1 => exact absurd rfl further
  | case2 => omega
  | case3 _ _ _ _ rest => have := @le_plainEnd quote rest (‹Nat› + 2); omega
  | case4 => omega
  | case5 _ rest => have := @le_plainEnd quote rest (‹Nat› + 1); omega

/-- A literal that ends before the text does ends there whatever follows. -/
theorem plainEnd_local {inside rest : List Char} {position : Nat} (further : rest ≠ [])
    (ends : plainEnd quote (inside ++ rest) position = position + inside.length)
    (more : List Char) : plainEnd quote (inside ++ more) position = position + inside.length := by
  match inside with
  | [] =>
    have beyond := @lt_plainEnd quote _ further position
    rw [List.nil_append,List.length_nil] at ends
    omega
  | c :: inside =>
    by_cases escape : c = '\\'
    · subst escape
      match inside with
      | [] =>
        obtain ⟨d,rest,rfl⟩ := List.exists_cons_of_ne_nil further
        rw [List.cons_append,List.nil_append,plainEnd_escape,List.length_singleton] at ends
        have beyond := @le_plainEnd quote rest (position + 2)
        omega
      | d :: inside =>
        simp only [List.cons_append,plainEnd_escape,List.length_cons] at ends ⊢
        rw [plainEnd_local further (by omega)]
        omega
    · by_cases close : c = quote ∨ c = '\n'
      · rw [List.cons_append,plainEnd_close escape close] at ends ⊢
        exact ends
      · simp only [List.cons_append,plainEnd_step escape close,List.length_cons] at ends ⊢
        rw [plainEnd_local further (by omega)]
        omega

theorem le_blockEnd (text : List Char) (position : Nat) : position ≤ blockEnd text position := by
  fun_induction blockEnd text position <;> omega

theorem blockEnd_le (text : List Char) (position : Nat) :
    blockEnd text position ≤ position + text.length := by
  fun_induction blockEnd text position with
  | case1 => simp
  | case2 c rest position close =>
    have long := (List.isPrefixOf_iff_prefix.mp close).length_le
    change 3 ≤ _ at long
    omega
  | case3 => simp only [List.length_cons]; omega

theorem begins_tripleQuote {text : List Char} :
    tripleQuote.isPrefixOf text = true ↔ ∃ rest, text = '"' :: '"' :: '"' :: rest := by
  rw [List.isPrefixOf_iff_prefix]
  constructor
  · rintro ⟨rest,rfl⟩
    exact ⟨rest,rfl⟩
  · rintro ⟨rest,rfl⟩
    exact ⟨rest,rfl⟩

theorem blockEnd_close (rest : List Char) (position : Nat) :
    blockEnd ('"' :: '"' :: '"' :: rest) position = position + 3 := by
  rw [blockEnd,if_pos (begins_tripleQuote.mpr ⟨rest,rfl⟩)]

theorem blockEnd_step {c : Char} {rest : List Char}
    (inside : ∀ more, c :: rest ≠ '"' :: '"' :: '"' :: more) (position : Nat) :
    blockEnd (c :: rest) position = blockEnd rest (position + 1) := by
  rw [blockEnd,if_neg]
  rw [begins_tripleQuote]
  rintro ⟨more,same⟩
  exact inside more same

theorem lt_blockEnd {text : List Char} (further : text ≠ []) (position : Nat) :
    position < blockEnd text position := by
  obtain ⟨c,rest,rfl⟩ := List.exists_cons_of_ne_nil further
  rw [blockEnd]
  split
  · omega
  · have := le_blockEnd rest (position + 1)
    omega

/-- The text of a block that ends before the text does is long enough to hold the closing quotes. -/
theorem three_le_of_blockEnd {inside rest : List Char} {position : Nat} (further : rest ≠ [])
    (ends : blockEnd (inside ++ rest) position = position + inside.length) :
    3 ≤ inside.length := by
  induction inside generalizing position with
  | nil =>
    have beyond := lt_blockEnd further position
    rw [List.nil_append,List.length_nil] at ends
    omega
  | cons c inside ih =>
    rw [List.cons_append,blockEnd,List.length_cons] at ends
    split at ends
    · rw [List.length_cons]
      omega
    · have shorter := @ih (position + 1) (by omega)
      rw [List.length_cons]
      omega

theorem blockEnd_local {inside rest : List Char} {position : Nat} (further : rest ≠ [])
    (ends : blockEnd (inside ++ rest) position = position + inside.length) (more : List Char) :
    blockEnd (inside ++ more) position = position + inside.length := by
  induction inside generalizing position with
  | nil =>
    have beyond := lt_blockEnd further position
    rw [List.nil_append,List.length_nil] at ends
    omega
  | cons c inside ih =>
    have long := three_le_of_blockEnd further ends
    obtain ⟨d,e,inside,rfl⟩ : ∃ d e others, inside = d :: e :: others := by
      match inside, long with
      | d :: e :: others, _ => exact ⟨d,e,others,rfl⟩
    -- Both texts begin with the same three characters, so they agree on whether these close.
    by_cases close : c = '"' ∧ d = '"' ∧ e = '"'
    · obtain ⟨rfl,rfl,rfl⟩ := close
      simp only [List.cons_append,blockEnd_close] at ends ⊢
      exact ends
    · have open_ (others : List Char) : ∀ after, c :: d :: e :: others ≠ '"' :: '"' :: '"' :: after := by
        intro after same
        simp only [List.cons.injEq] at same
        exact close ⟨same.1,same.2.1,same.2.2.1⟩
      simp only [List.cons_append,List.length_cons] at ends ih ⊢
      rw [blockEnd_step (open_ _)] at ends ⊢
      rw [ih (by omega)]
      omega

end Literal

theorem literalLength_triple (rest : List Char) :
    literalLength ('"' :: '"' :: '"' :: rest) = blockEnd rest 3 := by
  rw [literalLength,if_pos (begins_tripleQuote.mpr ⟨rest,rfl⟩)]
  rfl

theorem literalLength_plain {quote : Char} {rest : List Char}
    (plain : ∀ more, quote :: rest ≠ '"' :: '"' :: '"' :: more) :
    literalLength (quote :: rest) = plainEnd quote rest 1 := by
  rw [literalLength,if_neg]
  rw [begins_tripleQuote]
  rintro ⟨more,same⟩
  exact plain more same

theorem literalLength_pos (c : Char) (rest : List Char) : 1 ≤ literalLength (c :: rest) := by
  rw [literalLength]
  split
  · have := le_blockEnd (rest.drop 2) 3
    omega
  · exact le_plainEnd rest 1

/-- A literal that ends before the text does keeps its extent when another text follows, except
that two quotes followed by a third one would open a block. -/
theorem literalLength_local {inside rest more : List Char} (further : rest ≠ [])
    (same : more.head? = some '"' → rest.head? = some '"')
    (ends : literalLength (inside ++ rest) = inside.length) :
    literalLength (inside ++ more) = inside.length := by
  match inside with
  | [] =>
    obtain ⟨c,rest,rfl⟩ := List.exists_cons_of_ne_nil further
    have := literalLength_pos c rest
    rw [List.nil_append,List.length_nil] at ends
    omega
  | quote :: inside =>
    by_cases block : ∃ others, quote :: (inside ++ rest) = '"' :: '"' :: '"' :: others
    · obtain ⟨others,shape⟩ := block
      rw [List.cons_append,shape,literalLength_triple] at ends
      have long := le_blockEnd others 3
      obtain ⟨d,e,inside,rfl⟩ : ∃ d e after, inside = d :: e :: after := by
        match inside with
        | [] => simp at ends; omega
        | [_] => simp at ends; omega
        | d :: e :: after => exact ⟨d,e,after,rfl⟩
      simp only [List.cons_append,List.cons.injEq] at shape
      obtain ⟨rfl,rfl,rfl,rfl⟩ := shape
      simp only [List.length_cons] at ends
      simp only [List.cons_append,literalLength_triple,List.length_cons]
      rw [blockEnd_local further (by omega)]
      omega
    · rw [not_exists] at block
      rw [List.cons_append,literalLength_plain block,List.length_cons] at ends
      have again : ∀ others, quote :: (inside ++ more) ≠ '"' :: '"' :: '"' :: others := by
        intro others shape
        match inside with
        | [] =>
          have beyond := @lt_plainEnd quote _ further 1
          rw [List.nil_append,List.length_nil] at ends
          omega
        | [d] =>
          simp only [List.cons_append,List.nil_append,List.cons.injEq] at shape
          obtain ⟨rfl,rfl,rfl⟩ := shape
          obtain ⟨after,rfl⟩ := List.head?_eq_some_iff.mp (same rfl)
          exact block after rfl
        | d :: e :: inside =>
          simp only [List.cons_append,List.cons.injEq] at shape
          obtain ⟨rfl,rfl,rfl,rfl⟩ := shape
          exact block (inside ++ rest) rfl
      rw [List.cons_append,literalLength_plain again,List.length_cons,
        plainEnd_local further (by omega)]
      omega

theorem literalLength_le (text : List Char) : literalLength text ≤ text.length := by
  match text with
  | [] => exact Nat.le_refl 0
  | c :: rest =>
    rw [literalLength]
    split
    · next block =>
      obtain ⟨others,shape⟩ := begins_tripleQuote.mp block
      cases shape
      have := blockEnd_le others 3
      simp only [List.drop_succ_cons,List.drop_zero,List.length_cons]
      omega
    · have := @plainEnd_le c rest 1
      rw [List.length_cons]
      omega

/-- A literal of plain characters between double quotes. -/
theorem literalLength_quoted {inside rest : List Char}
    (plain : ∀ c ∈ inside, c ≠ '"' ∧ c ≠ '\\' ∧ c ≠ '\n')
    (apart : inside = [] → rest.head? ≠ some '"') :
    literalLength ('"' :: (inside ++ '"' :: rest)) = inside.length + 2 := by
  have ends (position : Nat) :
      plainEnd '"' (inside ++ '"' :: rest) position = position + inside.length + 1 := by
    clear apart
    induction inside generalizing position with
    | nil => rw [List.nil_append,plainEnd_close (by decide) (.inl rfl)]; rfl
    | cons c inside ih =>
      rw [List.forall_mem_cons] at plain
      obtain ⟨⟨quote,escape,line⟩,others⟩ := plain
      rw [List.cons_append,plainEnd_step escape (by simp [quote,line]),ih others,List.length_cons]
      omega
  rw [literalLength_plain,ends]
  · omega
  · intro more shape
    match inside with
    | [] =>
      simp only [List.nil_append,List.cons.injEq] at shape
      exact apart rfl (by rw [shape.2.2]; rfl)
    | c :: inside =>
      simp only [List.cons_append,List.cons.injEq] at shape
      exact (plain c List.mem_cons_self).1 shape.2.1

theorem le_closedAt (text : List Char) (position : Nat) : position ≤ closedAt text position := by
  fun_induction closedAt text position <;> omega

theorem closedAt_le (text : List Char) (position : Nat) :
    closedAt text position ≤ position + text.length := by
  fun_induction closedAt text position with
  | case1 => simp
  | case2 c rest position close =>
    have long := (List.isPrefixOf_iff_prefix.mp close).length_le
    change 2 ≤ _ at long
    omega
  | case3 => simp only [List.length_cons]; omega

/-- A comment opens with a slash and holds at least its two marks. -/
theorem commentLength?_eq_some {text : List Char} {length : Nat}
    (found : commentLength? text = some length) :
    text.head? = some '/' ∧ 2 ≤ length ∧ length ≤ text.length := by
  unfold commentLength? at found
  split at found
  · next rest =>
    cases found
    have part : (rest.takeWhile (· != '\n')).Sublist rest := List.takeWhile_sublist _
    have short := part.length_le
    simp only [List.length_cons]
    exact ⟨rfl,by omega,by omega⟩
  · next rest =>
    cases found
    have low := le_closedAt rest 2
    have high := closedAt_le rest 2
    simp only [List.length_cons]
    exact ⟨rfl,by omega,by omega⟩
  · cases found

theorem commentLength?_eq_none {c : Char} {rest : List Char} :
    commentLength? (c :: rest) = none ↔
      ¬(c = '/' ∧ (rest.head? = some '/' ∨ rest.head? = some '*')) := by
  constructor
  · rintro absent ⟨rfl,next | next⟩
    all_goals
      obtain ⟨after,rfl⟩ := List.head?_eq_some_iff.mp next
      simp [commentLength?] at absent
  · intro apart
    unfold commentLength?
    split
    · next shape =>
      cases shape
      exact absurd ⟨rfl,.inl rfl⟩ apart
    · next shape =>
      cases shape
      exact absurd ⟨rfl,.inr rfl⟩ apart
    · rfl

theorem tokensFrom_eq (comments : Bool) (skip : Nat) (text : List Char) (done : List Token) :
    tokensFrom comments skip text done =
      done.reverse ++ tokensFrom comments 0 (text.drop skip) [] := by
  induction text generalizing skip done with
  | nil => cases skip <;> simp [tokensFrom]
  | cons c rest ih =>
    cases skip with
    | zero => rw [tokensFrom,ih,List.drop_zero,tokensFrom,ih _ [_]]; simp
    | succ skip => rw [tokensFrom,ih,List.drop_succ_cons]

/-- The tokens of a text: one at its start, then those of the rest. -/
theorem tokensFrom_append {comments : Bool} {c : Char} {inside rest : List Char} {token : Token}
    (first : Token.first comments c (inside ++ rest) = token) (whole : token.text = c :: inside) :
    tokensFrom comments 0 (c :: (inside ++ rest)) [] =
      token :: tokensFrom comments 0 rest [] := by
  rw [tokensFrom,tokensFrom_eq,first,whole]
  simp

section Masks
variable {c : Char} {inside rest : List Char}

theorem first_literal (comments : Bool) (quoted : isQuote c = true)
    (ends : literalLength (c :: (inside ++ rest)) = inside.length + 1) :
    Token.first comments c (inside ++ rest) = .literal (c :: inside) := by
  rw [Token.first,if_pos quoted,ends]
  simp

theorem first_comment (bare : isQuote c = false)
    (ends : commentLength? (c :: (inside ++ rest)) = some (inside.length + 1)) :
    Token.first true c (inside ++ rest) = .comment (c :: inside) := by
  simp [Token.first,bare,ends]

theorem first_code (bare : isQuote c = false) (plain : commentLength? (c :: rest) = none) :
    Token.first true c rest = .code c := by
  simp [Token.first,bare,plain]

theorem tokens_literal (quoted : isQuote c = true)
    (ends : literalLength (c :: (inside ++ rest)) = inside.length + 1) :
    tokens (c :: (inside ++ rest)) = .literal (c :: inside) :: tokens rest :=
  tokensFrom_append (first_literal true quoted ends) rfl

theorem tokens_comment (bare : isQuote c = false)
    (ends : commentLength? (c :: (inside ++ rest)) = some (inside.length + 1)) :
    tokens (c :: (inside ++ rest)) = .comment (c :: inside) :: tokens rest :=
  tokensFrom_append (first_comment bare ends) rfl

theorem tokens_code (bare : isQuote c = false) (plain : commentLength? (c :: rest) = none) :
    tokens (c :: rest) = .code c :: tokens rest :=
  @tokensFrom_append true c [] rest _ (first_code bare plain) rfl

theorem literalTokens_literal (quoted : isQuote c = true)
    (ends : literalLength (c :: (inside ++ rest)) = inside.length + 1) :
    literalTokens (c :: (inside ++ rest)) = .literal (c :: inside) :: literalTokens rest :=
  tokensFrom_append (first_literal false quoted ends) rfl

theorem literalTokens_code (bare : isQuote c = false) :
    literalTokens (c :: rest) = .code c :: literalTokens rest := by
  have first : Token.first false c ([] ++ rest) = .code c := by simp [Token.first,bare]
  exact tokensFrom_append first rfl

theorem maskComments_literal (quoted : isQuote c = true)
    (ends : literalLength (c :: (inside ++ rest)) = inside.length + 1) :
    maskComments (c :: (inside ++ rest)) = c :: (inside ++ maskComments rest) := by
  rw [maskComments,tokens_literal quoted ends]
  rfl

theorem maskComments_comment (bare : isQuote c = false)
    (ends : commentLength? (c :: (inside ++ rest)) = some (inside.length + 1)) :
    maskComments (c :: (inside ++ rest)) = blanked (c :: inside) ++ maskComments rest := by
  rw [maskComments,tokens_comment bare ends]
  rfl

theorem maskComments_code (bare : isQuote c = false) (plain : commentLength? (c :: rest) = none) :
    maskComments (c :: rest) = c :: maskComments rest := by
  rw [maskComments,tokens_code bare plain]
  rfl

theorem maskLiterals_literal (quoted : isQuote c = true)
    (ends : literalLength (c :: (inside ++ rest)) = inside.length + 1) :
    maskLiterals (c :: (inside ++ rest)) = hollow (c :: inside) ++ maskLiterals rest := by
  rw [maskLiterals,literalTokens_literal quoted ends]
  rfl

theorem maskLiterals_code (bare : isQuote c = false) :
    maskLiterals (c :: rest) = c :: maskLiterals rest := by
  rw [maskLiterals,literalTokens_code bare]
  rfl

end Masks

theorem take_drop_split {c : Char} {rest : List Char} {length : Nat} (low : 1 ≤ length)
    (high : length ≤ (c :: rest).length) :
    ∃ inside more, rest = inside ++ more ∧ length = inside.length + 1 := by
  refine ⟨rest.take (length - 1),rest.drop (length - 1),(List.take_append_drop _ _).symm,?_⟩
  rw [List.length_cons] at high
  rw [List.length_take]
  omega

/-- Along a text token by token: a literal, a comment, or a character of code comes first. -/
@[elab_as_elim]
theorem byTokens {motive : List Char → Prop} (nil : motive [])
    (literal : ∀ c inside rest, isQuote c = true →
      literalLength (c :: (inside ++ rest)) = inside.length + 1 → motive rest →
        motive (c :: (inside ++ rest)))
    (comment : ∀ c inside rest, isQuote c = false →
      commentLength? (c :: (inside ++ rest)) = some (inside.length + 1) → motive rest →
        motive (c :: (inside ++ rest)))
    (code : ∀ c rest, isQuote c = false → commentLength? (c :: rest) = none → motive rest →
      motive (c :: rest)) : ∀ text, motive text
  | [] => nil
  | c :: rest => by
    cases quoted : isQuote c with
    | true =>
      obtain ⟨inside,more,shape,length⟩ := take_drop_split (literalLength_pos c rest)
        (literalLength_le (c :: rest))
      have shorter : more.length ≤ rest.length := by simp [shape]
      have above := byTokens nil literal comment code more
      subst shape
      exact literal c inside more quoted length above
    | false =>
      cases found : commentLength? (c :: rest) with
      | none => exact code c rest quoted found (byTokens nil literal comment code rest)
      | some length =>
        obtain ⟨_,low,high⟩ := commentLength?_eq_some found
        obtain ⟨inside,more,shape,same⟩ := take_drop_split (Nat.le_of_succ_le low) high
        have shorter : more.length ≤ rest.length := by simp [shape]
        have above := byTokens nil literal comment code more
        subst shape
        exact comment c inside more quoted (same ▸ found) above
termination_by text => text.length
decreasing_by all_goals simp only [List.length_cons]; omega

theorem head?_maskComments (text : List Char) :
    (maskComments text).head? = text.head? ∨ (maskComments text).head? = some ' ' := by
  induction text using byTokens with
  | nil => exact .inl rfl
  | literal c inside rest quoted ends => rw [maskComments_literal quoted ends]; exact .inl rfl
  | comment c inside rest bare ends =>
    have slash : c = '/' := Option.some.inj (commentLength?_eq_some ends).1
    rw [maskComments_comment bare ends,slash]
    exact .inr rfl
  | code c rest bare plain => rw [maskComments_code bare plain]; exact .inl rfl

/-- The characters behind a literal turn into blanks at most, which leave its extent alone. -/
theorem literalLength_maskComments {c : Char} {inside rest : List Char}
    (ends : literalLength (c :: (inside ++ rest)) = inside.length + 1) :
    literalLength (c :: (inside ++ maskComments rest)) = inside.length + 1 := by
  by_cases last : rest = []
  · rw [last] at ends ⊢
    exact ends
  · apply @literalLength_local (c :: inside) rest _ last _ ends
    intro quote
    rcases head?_maskComments rest with same | blank
    · rw [← same,quote]
    · rw [blank] at quote
      cases quote

/-- Characters that open neither a literal nor a comment. -/
def isInert (c : Char) : Bool := !isQuote c && c != '/'

theorem isQuote_of_isInert {c : Char} (inert : isInert c = true) : isQuote c = false := by
  rw [isInert,Bool.and_eq_true,Bool.not_eq_true'] at inert
  exact inert.1

theorem maskComments_cons {c : Char} (inert : isInert c = true) (rest : List Char) :
    maskComments (c :: rest) = c :: maskComments rest := by
  rw [isInert,Bool.and_eq_true,Bool.not_eq_true',bne_iff_ne] at inert
  apply maskComments_code inert.1
  rw [commentLength?_eq_none]
  exact fun opens => inert.2 opens.1

theorem maskComments_inert {front : List Char} (inert : ∀ c ∈ front, isInert c = true)
    (rest : List Char) : maskComments (front ++ rest) = front ++ maskComments rest := by
  induction front with
  | nil => rfl
  | cons c front ih =>
    rw [List.forall_mem_cons] at inert
    rw [List.cons_append,maskComments_cons inert.1,ih inert.2]
    rfl

theorem maskLiterals_cons {c : Char} (inert : isInert c = true) (rest : List Char) :
    maskLiterals (c :: rest) = c :: maskLiterals rest :=
  maskLiterals_code (isQuote_of_isInert inert)

theorem maskLiterals_inert {front : List Char} (inert : ∀ c ∈ front, isInert c = true)
    (rest : List Char) : maskLiterals (front ++ rest) = front ++ maskLiterals rest := by
  induction front with
  | nil => rfl
  | cons c front ih =>
    rw [List.forall_mem_cons] at inert
    rw [List.cons_append,maskLiterals_cons inert.1,ih inert.2]
    rfl

section Quoted
variable {inside rest : List Char}

/-- A literal of plain characters between double quotes. -/
theorem maskComments_quoted (plain : ∀ c ∈ inside, c ≠ '"' ∧ c ≠ '\\' ∧ c ≠ '\n')
    (apart : rest.head? ≠ some '"') :
    maskComments ('"' :: (inside ++ '"' :: rest)) =
      '"' :: (inside ++ '"' :: maskComments rest) := by
  have ends := literalLength_quoted plain fun _ => apart
  have literal := @maskComments_literal '"' (inside ++ ['"']) rest rfl (by simpa using ends)
  simpa using literal

theorem blanked_line (oneLine : '\n' ∉ inside) :
    blanked inside = List.replicate inside.length ' ' := by
  rw [blanked,← List.map_const']
  apply List.map_congr_left
  intro c member
  rw [if_neg]
  rw [beq_iff_eq]
  exact fun line => oneLine (line ▸ member)

theorem maskLiterals_quoted (plain : ∀ c ∈ inside, c ≠ '"' ∧ c ≠ '\\' ∧ c ≠ '\n')
    (apart : rest.head? ≠ some '"') :
    maskLiterals ('"' :: (inside ++ '"' :: rest)) =
      '"' :: (List.replicate inside.length ' ' ++ '"' :: maskLiterals rest) := by
  have ends := literalLength_quoted plain fun _ => apart
  have literal := @maskLiterals_literal '"' (inside ++ ['"']) rest rfl (by simpa using ends)
  have oneLine : '\n' ∉ inside := fun member => (plain _ member).2.2 rfl
  rw [hollow,List.dropLast_concat,blanked_line oneLine] at literal
  simpa using literal

/-- The contents of a literal that is all there is. -/
theorem firstStringLiteral_quoted (plain : ∀ c ∈ inside, c ≠ '"' ∧ c ≠ '\\' ∧ c ≠ '\n') :
    firstStringLiteral ('"' :: (inside ++ ['"'])) = some inside := by
  have ends := @literalLength_quoted inside [] plain (by simp)
  rw [firstStringLiteral,List.dropWhile_cons_of_neg (by simp)]
  dsimp only
  rw [ends,List.take_of_length_le (by simp)]
  simp

end Quoted

theorem inert_blanked (text : List Char) : ∀ c ∈ blanked text, isInert c = true := by
  intro c member
  obtain ⟨d,_,rfl⟩ := List.mem_map.mp member
  split
  · next line => rw [beq_iff_eq.mp line]; rfl
  · rfl

/-- Masking comments a second time changes nothing. -/
theorem maskComments_maskComments (text : List Char) :
    maskComments (maskComments text) = maskComments text := by
  induction text using byTokens with
  | nil => rfl
  | literal c inside rest quoted ends ih =>
    rw [maskComments_literal quoted ends,
      maskComments_literal quoted (literalLength_maskComments ends),ih]
  | comment c inside rest bare ends ih =>
    rw [maskComments_comment bare ends,maskComments_inert (inert_blanked _),ih]
  | code c rest bare plain ih =>
    rw [maskComments_code bare plain,maskComments_code bare,ih]
    rw [commentLength?_eq_none] at plain ⊢
    rintro ⟨slash,next⟩
    apply plain
    refine ⟨slash,?_⟩
    rcases head?_maskComments rest with same | blank
    · rwa [same] at next
    · rw [blank] at next
      simp at next

end JavaAtlas.Lexical
