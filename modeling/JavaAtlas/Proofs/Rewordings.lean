import JavaAtlas.Proofs.Lexing
import JavaAtlas.Proofs.Words

/-! Texts that differ in what their literals say. Where a literal ends depends on its quotes, its
backslashes and the ends of lines alone; so with any other wording the literals stand where they
stood, and the text looks the same where they are blank. -/
namespace JavaAtlas.Lexical
variable {one two : List Char}

section Agreement

/-- Neither a mark that delimits a literal nor the end of a line. -/
def isWording (c : Char) : Bool := !isQuote c && c != '\\' && c != '\n'

/-- The same character, or some wording for some other. -/
def Agrees (c d : Char) : Prop := c = d ∨ isWording c = true ∧ isWording d = true

instance : DecidableRel Agrees := fun c d =>
  inferInstanceAs (Decidable (c = d ∨ isWording c = true ∧ isWording d = true))

theorem beq_of_isWording {c mark : Char} (wording : isWording c = true)
    (fixed : isWording mark = false) : (c == mark) = false := by
  rw [beq_eq_false_iff_ne]
  rintro rfl
  rw [fixed] at wording
  cases wording

theorem Agrees.beq_eq {c d mark : Char} (agrees : Agrees c d) (fixed : isWording mark = false) :
    (c == mark) = (d == mark) := by
  rcases agrees with rfl | ⟨first,second⟩
  · rfl
  · rw [beq_of_isWording first fixed,beq_of_isWording second fixed]

theorem isPrefixOf_agrees {mark : List Char} (fixed : ∀ c ∈ mark, isWording c = false)
    (agree : List.Forall₂ Agrees one two) : mark.isPrefixOf one = mark.isPrefixOf two := by
  induction mark generalizing one two with
  | nil => rw [List.isPrefixOf_nil_left,List.isPrefixOf_nil_left]
  | cons m mark ih =>
    rw [List.forall_mem_cons] at fixed
    cases agree with
    | nil => rfl
    | cons here others =>
      rw [List.isPrefixOf,List.isPrefixOf,ih fixed.2 others,Bool.beq_comm,here.beq_eq fixed.1,
        Bool.beq_comm]

theorem plainEnd_agrees {quote : Char} (quoted : isQuote quote = true)
    (agree : List.Forall₂ Agrees one two) (position : Nat) :
    plainEnd quote one position = plainEnd quote two position := by
  have fixed : isWording quote = false := by
    rw [isWording,quoted]
    rfl
  fun_induction plainEnd quote one position generalizing two with
  | case1 =>
    cases agree
    rfl
  | case2 c position escape =>
    cases agree with
    | cons here others =>
      cases others
      rw [here.beq_eq rfl] at escape
      rw [plainEnd,if_pos escape]
  | case3 c position escape d rest ih =>
    cases agree with
    | cons here others =>
      cases others with
      | cons _ others =>
        rw [here.beq_eq rfl] at escape
        rw [plainEnd,if_pos escape]
        exact ih others
  | case4 c rest position escape closes =>
    cases agree with
    | cons here others =>
      rw [here.beq_eq rfl] at escape
      rw [here.beq_eq fixed,here.beq_eq rfl] at closes
      rw [Bool.or_eq_true,beq_iff_eq,beq_iff_eq] at closes
      rw [plainEnd_close (by simpa using escape) closes]
  | case5 c rest position escape further ih =>
    cases agree with
    | cons here others =>
      rw [here.beq_eq rfl] at escape
      rw [here.beq_eq fixed,here.beq_eq rfl] at further
      rw [plainEnd_step (by simpa using escape) (by simpa using further)]
      exact ih others

theorem blockEnd_agrees (agree : List.Forall₂ Agrees one two) (position : Nat) :
    blockEnd one position = blockEnd two position := by
  fun_induction blockEnd one position generalizing two with
  | case1 =>
    cases agree
    rfl
  | case2 c rest position closes =>
    rw [isPrefixOf_agrees (by decide) agree] at closes
    cases agree with
    | cons => rw [blockEnd,if_pos closes]
  | case3 c rest position further ih =>
    rw [isPrefixOf_agrees (by decide) agree] at further
    cases agree with
    | cons _ others =>
      rw [blockEnd,if_neg further]
      exact ih others

theorem literalLength_agrees {quote : Char} (quoted : isQuote quote = true)
    (agree : List.Forall₂ Agrees one two) :
    literalLength (quote :: one) = literalLength (quote :: two) := by
  have whole : List.Forall₂ Agrees (quote :: one) (quote :: two) := .cons (.inl rfl) agree
  rw [literalLength,literalLength,isPrefixOf_agrees (by decide) whole,plainEnd_agrees quoted agree,
    blockEnd_agrees (List.forall₂_drop 2 agree)]

theorem blanked_agrees (agree : List.Forall₂ Agrees one two) : blanked one = blanked two := by
  rw [← List.forall₂_eq_eq_eq,blanked,blanked,List.forall₂_map_left_iff,List.forall₂_map_right_iff]
  refine agree.imp fun c d here => ?_
  rcases here with rfl | ⟨first,second⟩
  · rfl
  · rw [beq_of_isWording first rfl,beq_of_isWording second rfl]
    rfl

theorem hollow_agrees (agree : List.Forall₂ Agrees one two)
    (within : ∀ i, one[i]? ≠ two[i]? → 0 < i ∧ i + 1 < one.length) : hollow one = hollow two := by
  have same {i : Nat} (ends : i = 0 ∨ one.length ≤ i + 1) : one[i]? = two[i]? := by
    by_contra differs
    have inner := within i differs
    omega
  cases agree with
  | nil => rfl
  | @cons quote other inside others here agree =>
    obtain rfl : quote = other := Option.some.inj (same (.inl rfl))
    have ends : inside.getLast? = others.getLast? := by
      rw [List.getLast?_eq_getElem?,List.getLast?_eq_getElem?,← agree.length_eq]
      cases agree with
      | nil => rfl
      | @cons c d inside others =>
        exact same (i := inside.length + 1) (.inr (Nat.le_refl _))
    have dropped : List.Forall₂ Agrees inside.dropLast others.dropLast := by
      rw [List.dropLast_eq_take,List.dropLast_eq_take,← agree.length_eq]
      exact List.forall₂_take _ agree
    rw [hollow,hollow,blanked_agrees dropped,ends]

end Agreement

section Wordings

/-- The place lies between the first and the last character of a literal among the tokens. -/
def inWording : List Token → Nat → Bool
  | [], _ => false
  | token :: others, i =>
    if i < token.text.length then token.isLiteral && decide (0 < i ∧ i + 1 < token.text.length)
    else inWording others (i - token.text.length)

theorem inWording_zero (found : List Token) : inWording found 0 = false := by
  induction found with
  | nil => rfl
  | cons token found ih =>
    rw [inWording]
    split
    · simp
    · rwa [Nat.zero_sub]

theorem inWording_add (token : Token) (found : List Token) (i : Nat) :
    inWording (token :: found) (token.text.length + i) = inWording found i := by
  rw [inWording,if_neg (Nat.not_lt.mpr (Nat.le_add_right _ _)),Nat.add_sub_cancel_left]

section Token
variable {token : Token} {found : List Token} {rest head tail : List Char} {i : Nat}

theorem within_of_differs (length : token.text.length = head.length)
    (inside : ∀ i, (token.text ++ rest)[i]? ≠ (head ++ tail)[i]? → inWording (token :: found) i = true)
    (differs : token.text[i]? ≠ head[i]?) :
    token.isLiteral = true ∧ 0 < i ∧ i + 1 < token.text.length := by
  have short : i < token.text.length := by
    by_contra beyond
    apply differs
    rw [List.getElem?_eq_none (by omega),List.getElem?_eq_none (by omega)]
  have inner := inside i (by
    rwa [List.getElem?_append_left short,List.getElem?_append_left (length ▸ short)])
  rwa [inWording,if_pos short,Bool.and_eq_true,decide_eq_true_eq] at inner

theorem behind_of_differs (length : token.text.length = head.length)
    (inside : ∀ i, (token.text ++ rest)[i]? ≠ (head ++ tail)[i]? → inWording (token :: found) i = true)
    (differs : rest[i]? ≠ tail[i]?) : inWording found i = true := by
  rw [← inWording_add token]
  apply inside
  rwa [List.getElem?_append_right (Nat.le_add_right _ _),length,
    List.getElem?_append_right (Nat.le_add_right _ _),Nat.add_sub_cancel_left]

/-- What agrees with a token and with what follows it. -/
structure Follows (token : Token) (rest head tail : List Char) : Prop where
  agree : List.Forall₂ Agrees token.text head
  ends : hollow token.text = hollow head
  fixed : token.isLiteral = false → head = token.text
  behind : List.Forall₂ Agrees rest tail
  next : tail.head? = rest.head?

theorem follows_of_differs (agree : List.Forall₂ Agrees token.text head)
    (behind : List.Forall₂ Agrees rest tail)
    (inside : ∀ i, (token.text ++ rest)[i]? ≠ (head ++ tail)[i]? → inWording (token :: found) i = true) :
    Follows token rest head tail := by
  have length := agree.length_eq
  refine ⟨agree,hollow_agrees agree fun i differs => (within_of_differs length inside differs).2,?_,
    behind,?_⟩
  · intro bare
    refine List.ext_getElem? fun i => ?_
    by_contra differs
    have literal := (within_of_differs length inside (Ne.symm differs)).1
    rw [bare] at literal
    cases literal
  · rw [List.head?_eq_getElem?,List.head?_eq_getElem?]
    by_contra differs
    have unworded := inWording_zero found
    rw [behind_of_differs length inside (Ne.symm differs)] at unworded
    cases unworded

theorem exists_follows (agree : List.Forall₂ Agrees (token.text ++ rest) two)
    (inside : ∀ i, (token.text ++ rest)[i]? ≠ two[i]? → inWording (token :: found) i = true) :
    ∃ head tail, two = head ++ tail ∧ Follows token rest head tail ∧
      ∀ i, rest[i]? ≠ tail[i]? → inWording found i = true := by
  have first := List.forall₂_take token.text.length agree
  have second := List.forall₂_drop token.text.length agree
  have whole := (List.take_append_drop token.text.length two).symm
  rw [List.take_left] at first
  rw [List.drop_left] at second
  rw [whole] at inside
  exact ⟨_,_,whole,follows_of_differs first second inside,
    fun i differs => behind_of_differs first.length_eq inside differs⟩

end Token

/-- The same token, or a literal with the same ends and line breaks. -/
inductive Token.Reworded : Token → Token → Prop where
  | same (token : Token) : Reworded token token
  | literal {one two : List Char} : hollow one = hollow two → Reworded (.literal one) (.literal two)

theorem IsComment.facing {text rest other : List Char} (whole : IsComment text rest)
    (same : other.head? = rest.head?) : IsComment text other := by
  have empty (ended : rest = []) : other = [] := by
    rwa [ended,List.head?_nil,List.head?_eq_none_iff] at same
  cases whole with
  | line oneLine ends => exact .line oneLine (ends.imp empty same.trans)
  | block first => exact .block first
  | openBlock missing =>
    rw [empty rfl]
    exact .openBlock missing

theorem IsLiteral.agrees {text rest head tail : List Char} (whole : IsLiteral text rest)
    (follows : Follows (.literal text) rest head tail) : IsLiteral head tail := by
  have length := whole.length
  obtain ⟨quote,inside,rfl,quoted⟩ := whole.opens
  have agree := follows.agree
  have ends := follows.ends
  change List.Forall₂ Agrees (quote :: inside) head at agree
  change hollow (quote :: inside) = hollow head at ends
  cases agree with
  | @cons _ other _ others _ agree =>
    obtain rfl : quote = other := (List.cons.inj ends).1
    apply isLiteral_of_length quoted
    rw [← literalLength_agrees quoted (List.rel_append agree follows.behind),← agree.length_eq]
    exact length

/-- Texts that agree divide in the same way. -/
theorem exists_lexes {found : List Token} (lexed : Lexes one found)
    (agree : List.Forall₂ Agrees one two)
    (inside : ∀ i, one[i]? ≠ two[i]? → inWording found i = true) :
    ∃ others, Lexes two others ∧ List.Forall₂ Token.Reworded found others := by
  induction lexed generalizing two with
  | done =>
    cases agree
    exact ⟨[],.done,.nil⟩
  | @literal text rest found whole lexed ih =>
    obtain ⟨head,tail,rfl,follows,behind⟩ := @exists_follows _ (.literal text) _ _ agree inside
    obtain ⟨others,lexedToo,reworded⟩ := ih follows.behind behind
    exact ⟨.literal head :: others,.literal (whole.agrees follows) lexedToo,
      .cons (.literal follows.ends) reworded⟩
  | @comment text rest found whole lexed ih =>
    obtain ⟨_,tail,rfl,follows,behind⟩ := @exists_follows _ (.comment text) _ _ agree inside
    obtain ⟨others,lexedToo,reworded⟩ := ih follows.behind behind
    obtain rfl := follows.fixed rfl
    exact ⟨_,.comment (whole.facing follows.next) lexedToo,.cons (.same _) reworded⟩
  | @code c rest found bare plain lexed ih =>
    obtain ⟨_,tail,rfl,follows,behind⟩ := @exists_follows _ (.code c) _ _ agree inside
    obtain ⟨others,lexedToo,reworded⟩ := ih follows.behind behind
    obtain rfl := follows.fixed rfl
    rw [← follows.next] at plain
    exact ⟨_,.code bare plain lexedToo,.cons (.same _) reworded⟩

theorem Token.Reworded.masked_eq {one two : Token} (reworded : one.Reworded two) :
    one.masked = two.masked := by
  cases reworded with
  | same => rfl
  | literal same => exact same

theorem Token.Reworded.length_eq {one two : Token} (reworded : one.Reworded two) :
    one.text.length = two.text.length := by
  have length := congrArg List.length reworded.masked_eq
  rwa [← one.shows_masked.length_eq,← two.shows_masked.length_eq] at length

/-- The texts differ in the wording of literals alone. -/
structure Reworded (one two : List Char) : Prop where
  agree : List.Forall₂ Agrees one two
  inside : ∀ i < one.length, one[i]? ≠ two[i]? → inWording (tokens one) i = true

instance : DecidableRel Reworded := fun _ _ =>
  decidable_of_iff (_ ∧ _)
    ⟨fun ⟨agree,inside⟩ => ⟨agree,inside⟩,fun ⟨agree,inside⟩ => ⟨agree,inside⟩⟩

theorem Reworded.differs (reworded : Reworded one two) {i : Nat} (differs : one[i]? ≠ two[i]?) :
    i < one.length := by
  have length := reworded.agree.length_eq
  by_contra beyond
  apply differs
  rw [List.getElem?_eq_none (by omega),List.getElem?_eq_none (by omega)]

theorem Reworded.tokens (reworded : Reworded one two) :
    List.Forall₂ Token.Reworded (tokens one) (tokens two) := by
  obtain ⟨others,lexed,each⟩ := exists_lexes (lexes_tokens one) reworded.agree
    fun i differs => reworded.inside i (reworded.differs differs) differs
  rwa [lexed.eq_tokens] at each

theorem Reworded.masks_eq (reworded : Reworded one two) :
    maskLiterals (maskComments one) = maskLiterals (maskComments two) := by
  rw [maskLiterals_maskComments,maskLiterals_maskComments,← List.forall₂_eq_eq_eq]
  refine List.rel_flatMap reworded.tokens fun first second same => ?_
  rw [same.masked_eq,List.forall₂_eq_eq_eq]

theorem Reworded.kept (reworded : Reworded one two) {i : Nat} (same : one[i]? = two[i]?) :
    (maskComments one)[i]? = (maskComments two)[i]? := by
  rw [← (lexes_tokens one).text_eq,← (lexes_tokens two).text_eq] at same
  have each := reworded.tokens
  unfold maskComments
  generalize Lexical.tokens one = firsts at each same ⊢
  generalize Lexical.tokens two = seconds at each same ⊢
  induction each generalizing i with
  | nil => rfl
  | @cons first second firsts seconds here _ ih =>
    have length := here.length_eq
    have kept (token : Token) := length_withoutComment token
    rw [List.flatMap_cons,List.flatMap_cons] at same ⊢
    rcases Nat.lt_or_ge i first.text.length with inside | behind
    · rw [List.getElem?_append_left inside,List.getElem?_append_left (by omega)] at same
      rw [List.getElem?_append_left (by rwa [kept]),List.getElem?_append_left (by rw [kept]; omega)]
      cases here with
      | same => rfl
      | literal => exact same
    · rw [List.getElem?_append_right behind,List.getElem?_append_right (by omega),← length] at same
      rw [List.getElem?_append_right (by rwa [kept]),List.getElem?_append_right (by rw [kept]; omega),
        kept,kept,← length]
      exact ih same

end Wordings

end JavaAtlas.Lexical
