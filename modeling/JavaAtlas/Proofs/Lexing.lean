import JavaAtlas.Proofs.Masking
import Mathlib.Data.List.Forall2
import Mathlib.Data.List.Pairwise
import Mathlib.Data.List.TakeWhile

/-! Tokens by their marks. Literals and comments are described by what delimits them, without the
scans that find it, and a text by one token after another; every text is divided in one way, the
lexer's. The two masks, one made of the other, are read off that division in a single pass. -/
namespace JavaAtlas.Lexical

section Marks
variable {mark inside text : List Char}

/-- The index behind the first occurrence of a mark, with `position` the index of the first of the
given characters; behind the text where there is none. -/
def pastMark (mark : List Char) : List Char → Nat → Nat
  | [], position => position
  | c :: rest, position =>
    if mark.isPrefixOf (c :: rest) then position + mark.length
    else pastMark mark rest (position + 1)

theorem blockEnd_eq_pastMark (text : List Char) (position : Nat) :
    blockEnd text position = pastMark tripleQuote text position := by
  fun_induction blockEnd text position with
  | case1 => rfl
  | case2 c rest position close => rw [pastMark,if_pos close]; rfl
  | case3 c rest position further ih => rw [pastMark,if_neg further,ih]

def commentClosing : List Char := ['*','/']

theorem closedAt_eq_pastMark (text : List Char) (position : Nat) :
    closedAt text position = pastMark commentClosing text position := by
  rw [commentClosing]
  fun_induction closedAt text position with
  | case1 => rfl
  | case2 c rest position close => rw [pastMark,if_pos close]; rfl
  | case3 c rest position further ih => rw [pastMark,if_neg further,ih]

theorem pastMark_missing (missing : ¬mark <:+: text) (position : Nat) :
    pastMark mark text position = position + text.length := by
  induction text generalizing position with
  | nil => rfl
  | cons c rest ih =>
    rw [List.infix_cons_iff,not_or] at missing
    rw [pastMark,if_neg (by rw [List.isPrefixOf_iff_prefix]; exact missing.1),ih missing.2,
      List.length_cons]
    omega

/-- Where a mark is completed for the first time behind a text, it does not begin in the text. -/
theorem not_prefix_of_first {c : Char} (first : ¬mark <:+: c :: (inside ++ mark.dropLast))
    (rest : List Char) : ¬mark <+: c :: (inside ++ (mark ++ rest)) := by
  intro begins
  apply first
  refine (List.prefix_of_prefix_length_le begins ?_ ?_).isInfix
  · rw [List.cons_prefix_cons,List.prefix_append_right_inj]
    exact ⟨rfl,(List.dropLast_prefix mark).trans (List.prefix_append mark rest)⟩
  · rw [List.length_cons,List.length_append,List.length_dropLast]
    omega

theorem pastMark_first (first : ¬mark <:+: inside ++ mark.dropLast) (rest : List Char)
    (position : Nat) :
    pastMark mark (inside ++ (mark ++ rest)) position = position + inside.length + mark.length := by
  induction inside generalizing position with
  | nil =>
    have proper : mark ≠ [] := fun empty => first (empty ▸ List.nil_infix)
    obtain ⟨m,others,rfl⟩ := List.exists_cons_of_ne_nil proper
    have here : (m :: others).isPrefixOf (m :: (others ++ rest)) = true :=
      List.isPrefixOf_iff_prefix.mpr (List.prefix_append (m :: others) rest)
    rw [List.nil_append,List.cons_append,pastMark,if_pos here]
    rfl
  | cons c inside ih =>
    have further : ¬mark.isPrefixOf (c :: (inside ++ (mark ++ rest))) = true := by
      rw [List.isPrefixOf_iff_prefix]
      exact not_prefix_of_first first rest
    rw [List.cons_append,List.infix_cons_iff,not_or] at first
    rw [List.cons_append,pastMark,if_neg further,ih first.2,List.length_cons]
    omega

/-- A mark that is found from one place is found from a later one, if it is not passed there. -/
theorem pastMark_later (proper : mark ≠ []) {early late : Nat} (after : early ≤ late)
    (ahead : late + mark.length ≤ pastMark mark (text.drop early) early) :
    pastMark mark (text.drop late) late = pastMark mark (text.drop early) early := by
  induction late, after using Nat.le_induction with
  | base => rfl
  | succ late after ih =>
    have same := ih (by omega)
    rw [← same] at ahead ⊢
    have filled := List.length_pos_of_ne_nil proper
    cases left : text.drop late with
    | nil =>
      rw [left,pastMark] at ahead
      omega
    | cons c rest =>
      have next : text.drop (late + 1) = rest := by rw [← List.tail_drop,left,List.tail_cons]
      rw [left,pastMark] at ahead
      rw [next,pastMark]
      split at ahead
      · omega
      · next further => rw [if_neg further]

theorem exists_first_mark (proper : mark ≠ []) (found : mark <:+: text) :
    ∃ inside rest, text = inside ++ (mark ++ rest) ∧ ¬mark <:+: inside ++ mark.dropLast := by
  have shorter : mark.dropLast.length < mark.length := by
    rw [List.length_dropLast]
    exact Nat.sub_one_lt (Nat.ne_of_gt (List.length_pos_of_ne_nil proper))
  induction text with
  | nil => exact absurd (List.infix_nil.mp found) proper
  | cons c text ih =>
    by_cases begins : mark <+: c :: text
    · obtain ⟨rest,shape⟩ := begins
      exact ⟨[],rest,shape.symm,fun early => absurd early.length_le (by simpa using shorter)⟩
    · obtain ⟨inside,rest,shape,first⟩ := ih ((List.infix_cons_iff.mp found).resolve_left begins)
      refine ⟨c :: inside,rest,by rw [shape]; rfl,?_⟩
      rw [List.cons_append,List.infix_cons_iff,not_or]
      refine ⟨fun early => begins (early.trans ?_),first⟩
      rw [shape,List.cons_prefix_cons,List.prefix_append_right_inj]
      exact ⟨rfl,(List.dropLast_prefix mark).trans (List.prefix_append mark rest)⟩

end Marks

section Literals
variable {quote : Char} {inside text rest : List Char}

/-- What may stand in a literal of one line: a backslash takes the next character with it, and
neither the quote nor a line break stands alone. -/
inductive Inside (quote : Char) : List Char → Prop where
  | nil : Inside quote []
  | plain {c : Char} {rest : List Char} : c ≠ '\\' → c ≠ quote → c ≠ '\n' → Inside quote rest →
      Inside quote (c :: rest)
  | escape (c : Char) {rest : List Char} : Inside quote rest → Inside quote ('\\' :: c :: rest)

/-- The text is a whole literal if `rest` follows. -/
inductive IsLiteral : List Char → List Char → Prop where
  | closed {quote last : Char} {inside rest : List Char} : isQuote quote = true →
      Inside quote inside → last = quote ∨ last = '\n' →
      ¬tripleQuote <+: quote :: (inside ++ last :: rest) →
      IsLiteral (quote :: (inside ++ [last])) rest
  | unclosed {quote : Char} {inside stray : List Char} : isQuote quote = true →
      Inside quote inside → stray = [] ∨ stray = ['\\'] → IsLiteral (quote :: (inside ++ stray)) []
  | block {inside rest : List Char} : ¬tripleQuote <:+: inside ++ ['"','"'] →
      IsLiteral (tripleQuote ++ (inside ++ tripleQuote)) rest
  | openBlock {inside : List Char} : ¬tripleQuote <:+: inside → IsLiteral (tripleQuote ++ inside) []

theorem plainEnd_inside (plain : Inside quote inside) (rest : List Char) (position : Nat) :
    plainEnd quote (inside ++ rest) position = plainEnd quote rest (position + inside.length) := by
  induction plain generalizing position with
  | nil => rfl
  | plain escape closes line _ ih =>
    rw [List.cons_append,plainEnd_step escape (by simp [closes,line]),ih,List.length_cons]
    congr 1
    omega
  | escape c _ ih =>
    rw [List.cons_append,List.cons_append,plainEnd_escape,ih]
    congr 1
    simp only [List.length_cons]
    omega

/-- What may stand in a literal goes on up to a character that ends it or to the end of the text,
where a single backslash may be left over. -/
theorem exists_inside (quote : Char) : ∀ text : List Char, ∃ inside tail,
    text = inside ++ tail ∧ Inside quote inside ∧ ((tail = [] ∨ tail = ['\\']) ∨
      ∃ last rest, tail = last :: rest ∧ (last = quote ∨ last = '\n'))
  | [] => ⟨[],[],rfl,.nil,.inl (.inl rfl)⟩
  | c :: rest => by
    by_cases escape : c = '\\'
    · subst escape
      match rest with
      | [] => exact ⟨[],['\\'],rfl,.nil,.inl (.inr rfl)⟩
      | d :: rest =>
        obtain ⟨inside,tail,rfl,plain,ends⟩ := exists_inside quote rest
        exact ⟨'\\' :: d :: inside,tail,rfl,.escape d plain,ends⟩
    · by_cases closes : c = quote ∨ c = '\n'
      · exact ⟨[],c :: rest,rfl,.nil,.inr ⟨c,rest,rfl,closes⟩⟩
      · obtain ⟨inside,tail,rfl,plain,ends⟩ := exists_inside quote rest
        rw [not_or] at closes
        exact ⟨c :: inside,tail,rfl,.plain escape closes.1 closes.2 plain,ends⟩

/-- A literal left open on one line does not begin as a block does. -/
theorem Inside.not_triple {tail : List Char} (plain : Inside quote inside)
    (ends : tail = [] ∨ tail = ['\\']) (more : List Char) :
    quote :: (inside ++ tail) ≠ '"' :: '"' :: '"' :: more := by
  intro shape
  rw [List.cons.injEq] at shape
  obtain ⟨rfl,second⟩ := shape
  cases plain with
  | nil => rcases ends with rfl | rfl <;> simp at second
  | plain _ closes => exact closes (List.cons.inj second).1
  | escape => simp at second

theorem Inside.head_ne (plain : Inside quote inside) (quoted : isQuote quote = true) {c : Char}
    (head : inside.head? = some c) : c ≠ quote := by
  cases plain with
  | nil => cases head
  | plain _ closes => cases head; exact closes
  | escape =>
    cases head
    rintro rfl
    cases quoted

theorem IsLiteral.length (whole : IsLiteral text rest) :
    literalLength (text ++ rest) = text.length := by
  cases whole with
  | @closed quote last inside rest quoted plain ends single =>
    have shape : quote :: (inside ++ [last]) ++ rest = quote :: (inside ++ last :: rest) := by simp
    have notBlock (more : List Char) : quote :: (inside ++ last :: rest) ≠ '"' :: '"' :: '"' :: more :=
      fun same => single ⟨more,same.symm⟩
    rw [shape,literalLength_plain notBlock,plainEnd_inside plain]
    have bare : last ≠ '\\' := by
      rintro rfl
      rcases ends with rfl | line
      · cases quoted
      · cases line
    rw [plainEnd_close bare ends]
    simp only [List.length_cons,List.length_append,List.length_nil]
    omega
  | @unclosed quote inside stray quoted plain ends =>
    rw [List.append_nil,literalLength_plain (plain.not_triple ends),plainEnd_inside plain]
    rcases ends with rfl | rfl
    · simp only [plainEnd,List.append_nil,List.length_cons]
      omega
    · simp only [plainEnd,List.length_append,List.length_cons,List.length_nil]
      simp
      omega
  | @block inside rest first =>
    have shape : tripleQuote ++ (inside ++ tripleQuote) ++ rest =
        '"' :: '"' :: '"' :: (inside ++ (tripleQuote ++ rest)) := by simp [tripleQuote]
    rw [shape,literalLength_triple,blockEnd_eq_pastMark,pastMark_first first]
    simp only [tripleQuote,List.length_append,List.length_cons,List.length_nil]
    omega
  | @openBlock inside missing =>
    rw [List.append_nil,tripleQuote,List.cons_append,List.cons_append,List.cons_append,
      List.nil_append,literalLength_triple,blockEnd_eq_pastMark,pastMark_missing missing]
    simp only [List.length_cons]
    omega

theorem exists_isLiteral (quoted : isQuote quote = true) (rest : List Char) :
    ∃ text more, quote :: rest = text ++ more ∧ IsLiteral text more := by
  by_cases block : ∃ after, quote :: rest = tripleQuote ++ after
  · obtain ⟨after,shape⟩ := block
    rw [shape]
    by_cases closes : tripleQuote <:+: after
    · obtain ⟨inside,more,rfl,first⟩ := exists_first_mark (by decide) closes
      exact ⟨tripleQuote ++ (inside ++ tripleQuote),more,by simp,.block first⟩
    · exact ⟨tripleQuote ++ after,[],by simp,.openBlock closes⟩
  · obtain ⟨inside,tail,rfl,plain,ends⟩ := exists_inside quote rest
    rcases ends with ends | ⟨last,more,rfl,ends⟩
    · exact ⟨quote :: (inside ++ tail),[],by simp,.unclosed quoted plain ends⟩
    · exact ⟨quote :: (inside ++ [last]),more,by simp,
        .closed quoted plain ends fun ⟨after,same⟩ => block ⟨after,same.symm⟩⟩

theorem isLiteral_of_length (quoted : isQuote quote = true)
    (ends : literalLength (quote :: (inside ++ rest)) = inside.length + 1) :
    IsLiteral (quote :: inside) rest := by
  obtain ⟨text,more,shape,whole⟩ := exists_isLiteral quoted (inside ++ rest)
  have same : (quote :: inside).length = text.length := by
    rw [← whole.length,← shape,ends]
    rfl
  obtain ⟨rfl,rfl⟩ := List.append_inj shape same
  exact whole

theorem IsLiteral.opens (whole : IsLiteral text rest) :
    ∃ quote inside, text = quote :: inside ∧ isQuote quote = true := by
  cases whole with
  | closed quoted => exact ⟨_,_,rfl,quoted⟩
  | unclosed quoted => exact ⟨_,_,rfl,quoted⟩
  | block => exact ⟨_,_,rfl,rfl⟩
  | openBlock => exact ⟨_,_,rfl,rfl⟩

end Literals

section Comments
variable {text rest : List Char}

/-- The text is a whole comment if `rest` follows. -/
inductive IsComment : List Char → List Char → Prop where
  | line {inside rest : List Char} : '\n' ∉ inside → rest = [] ∨ rest.head? = some '\n' →
      IsComment ('/' :: '/' :: inside) rest
  | block {inside rest : List Char} : ¬commentClosing <:+: inside ++ ['*'] →
      IsComment ('/' :: '*' :: (inside ++ commentClosing)) rest
  | openBlock {inside : List Char} : ¬commentClosing <:+: inside → IsComment ('/' :: '*' :: inside) []

theorem IsComment.length (whole : IsComment text rest) :
    commentLength? (text ++ rest) = some text.length := by
  cases whole with
  | @line inside rest oneLine ends =>
    have stops : (inside ++ rest).takeWhile (· != '\n') = inside := by
      rw [List.takeWhile_append_of_pos (fun c member => by
        rw [bne_iff_ne]
        rintro rfl
        exact oneLine member)]
      rcases ends with rfl | line
      · simp
      · obtain ⟨after,rfl⟩ := List.head?_eq_some_iff.mp line
        simp
    rw [List.cons_append,List.cons_append,commentLength?,stops]
    rfl
  | @block inside rest first =>
    have shape : '/' :: '*' :: (inside ++ commentClosing) ++ rest =
        '/' :: '*' :: (inside ++ (commentClosing ++ rest)) := by simp
    rw [shape,commentLength?,closedAt_eq_pastMark,pastMark_first first]
    simp only [List.length_append,List.length_cons]
    congr 1
    omega
  | @openBlock inside missing =>
    rw [List.append_nil,commentLength?,closedAt_eq_pastMark,pastMark_missing missing]
    simp only [List.length_cons]
    congr 1
    omega

theorem exists_isComment {c : Char} {rest : List Char}
    (opens : c = '/' ∧ (rest.head? = some '/' ∨ rest.head? = some '*')) :
    ∃ text more, c :: rest = text ++ more ∧ IsComment text more := by
  obtain ⟨rfl,next | next⟩ := opens
  · obtain ⟨after,rfl⟩ := List.head?_eq_some_iff.mp next
    refine ⟨'/' :: '/' :: after.takeWhile (· != '\n'),after.dropWhile (· != '\n'),by simp,.line ?_ ?_⟩
    · intro member
      simpa using List.mem_takeWhile_imp member
    · cases left : after.dropWhile (· != '\n') with
      | nil => exact .inl rfl
      | cons d others =>
        have stop := List.head?_dropWhile_not (· != '\n') after
        rw [left] at stop
        exact .inr (by simpa using stop)
  · obtain ⟨after,rfl⟩ := List.head?_eq_some_iff.mp next
    by_cases closes : commentClosing <:+: after
    · obtain ⟨inside,more,rfl,first⟩ := exists_first_mark (by decide) closes
      exact ⟨'/' :: '*' :: (inside ++ commentClosing),more,by simp,.block first⟩
    · exact ⟨'/' :: '*' :: after,[],by simp,.openBlock closes⟩

theorem isComment_of_length {c : Char} {inside : List Char}
    (ends : commentLength? (c :: (inside ++ rest)) = some (inside.length + 1)) :
    IsComment (c :: inside) rest := by
  have opens := mt commentLength?_eq_none.mpr (by rw [ends]; simp)
  obtain ⟨text,more,shape,whole⟩ := exists_isComment (Classical.not_not.mp opens)
  have same : (c :: inside).length = text.length := by
    have found := whole.length
    rw [← shape,ends] at found
    exact Option.some.inj found
  obtain ⟨rfl,rfl⟩ := List.append_inj shape same
  exact whole

theorem IsComment.opens (whole : IsComment text rest) : ∃ inside, text = '/' :: inside := by
  cases whole with
  | line => exact ⟨_,rfl⟩
  | block => exact ⟨_,rfl⟩
  | openBlock => exact ⟨_,rfl⟩

end Comments

/-- The text consists of the tokens. A character of its own opens neither a literal nor a
comment. -/
inductive Lexes : List Char → List Token → Prop where
  | done : Lexes [] []
  | literal {text rest : List Char} {found : List Token} : IsLiteral text rest → Lexes rest found →
      Lexes (text ++ rest) (.literal text :: found)
  | comment {text rest : List Char} {found : List Token} : IsComment text rest → Lexes rest found →
      Lexes (text ++ rest) (.comment text :: found)
  | code {c : Char} {rest : List Char} {found : List Token} : isQuote c = false →
      ¬(c = '/' ∧ (rest.head? = some '/' ∨ rest.head? = some '*')) → Lexes rest found →
      Lexes (c :: rest) (.code c :: found)

theorem lexes_tokens (text : List Char) : Lexes text (tokens text) := by
  induction text using byTokens with
  | nil => exact .done
  | literal c inside rest quoted ends ih =>
    rw [tokens_literal quoted ends]
    exact .literal (isLiteral_of_length quoted ends) ih
  | comment c inside rest bare ends ih =>
    rw [tokens_comment bare ends]
    exact .comment (isComment_of_length ends) ih
  | code c rest bare plain ih =>
    rw [tokens_code bare plain]
    exact .code bare (commentLength?_eq_none.mp plain) ih

theorem Lexes.eq_tokens {text : List Char} {found : List Token} (lexed : Lexes text found) :
    found = tokens text := by
  induction lexed with
  | done => rfl
  | @literal text rest found whole _ ih =>
    obtain ⟨quote,inside,rfl,quoted⟩ := whole.opens
    rw [List.cons_append,tokens_literal quoted whole.length,ih]
  | @comment text rest found whole _ ih =>
    have ends := whole.length
    obtain ⟨inside,rfl⟩ := whole.opens
    rw [List.cons_append,tokens_comment rfl ends,ih]
  | code bare plain _ ih => rw [tokens_code bare (commentLength?_eq_none.mpr plain),ih]

/-- The lexer finds the one division there is. -/
theorem lexes_iff {text : List Char} {found : List Token} :
    Lexes text found ↔ found = tokens text :=
  ⟨Lexes.eq_tokens,fun same => same ▸ lexes_tokens text⟩

theorem Lexes.text_eq {text : List Char} {found : List Token} (lexed : Lexes text found) :
    found.flatMap Token.text = text := by
  induction lexed with
  | done => rfl
  | literal _ _ ih => rw [List.flatMap_cons,ih]; rfl
  | comment _ _ ih => rw [List.flatMap_cons,ih]; rfl
  | code _ _ _ ih => rw [List.flatMap_cons,ih]; rfl

/-- The token is whole if `rest` follows. -/
def Token.Stands (rest : List Char) : Token → Prop
  | .code _ => True
  | .literal text => IsLiteral text rest
  | .comment text => IsComment text rest

section Positions

/-- The tokens with the index of the first character of each. -/
def placed : Nat → List Token → List (Nat × Token)
  | _, [] => []
  | start, token :: others => (start,token) :: placed (start + token.text.length) others

/-- Of stretches that follow each other, two that overlap are the same. -/
theorem eq_of_overlap {α : Type} {items : List α} {low high : α → Nat}
    (ordered : items.Pairwise fun first second => high first ≤ low second) {one two : α}
    (inOne : one ∈ items) (inTwo : two ∈ items) (before : low one < high two)
    (behind : low two < high one) : one = two := by
  have symmetric : Std.Symm fun one two : α => high one ≤ low two ∨ high two ≤ low one :=
    ⟨fun _ _ => Or.symm⟩
  have apart : items.Pairwise fun one two => high one ≤ low two ∨ high two ≤ low one :=
    ordered.imp Or.inl
  by_contra distinct
  rcases apart.forall inOne inTwo distinct with first | second
  · exact Nat.not_lt_of_le first behind
  · exact Nat.not_lt_of_le second before

section Places
variable {start place : Nat} {token : Token} {text : List Char} {found : List Token}

theorem pairwise_placed (start : Nat) (found : List Token) :
    (∀ entry ∈ placed start found, start ≤ entry.1) ∧
      (placed start found).Pairwise fun first second => first.1 + first.2.text.length ≤ second.1 := by
  induction found generalizing start with
  | nil => exact ⟨nofun,.nil⟩
  | cons token found ih =>
    rw [placed,List.forall_mem_cons,List.pairwise_cons]
    refine ⟨⟨Nat.le_refl _,?_⟩,(ih _).1,(ih _).2⟩
    intro entry member
    exact (Nat.le_add_right _ _).trans ((ih _).1 entry member)

theorem exists_placed (inside : place < (found.flatMap Token.text).length) :
    ∃ entry ∈ placed start found,
      entry.1 ≤ start + place ∧ start + place < entry.1 + entry.2.text.length := by
  induction found generalizing start place with
  | nil => exact absurd inside (Nat.not_lt_zero _)
  | cons token found ih =>
    rw [List.flatMap_cons,List.length_append] at inside
    by_cases here : place < token.text.length
    · exact ⟨(start,token),List.mem_cons_self,Nat.le_add_right _ _,Nat.add_lt_add_left here _⟩
    · obtain ⟨place,rfl⟩ := Nat.exists_eq_add_of_le (Nat.le_of_not_lt here)
      obtain ⟨entry,member,low,high⟩ := @ih (start + token.text.length) place (by omega)
      exact ⟨entry,List.mem_cons_of_mem _ member,by omega,by omega⟩

/-- What is written token by token keeps the places of the tokens. -/
theorem getElem?_flatMap {write : Token → List Char}
    (same : ∀ token, (write token).length = token.text.length)
    (member : (place,token) ∈ placed start found) {i : Nat} (low : place ≤ i)
    (high : i < place + token.text.length) :
    (found.flatMap write)[i - start]? = (write token)[i - place]? := by
  induction found generalizing start with
  | nil => cases member
  | cons first found ih =>
    rw [List.flatMap_cons]
    rcases List.mem_cons.mp member with here | later
    · cases here
      rw [List.getElem?_append_left (by rw [same]; omega)]
    · have reached := (pairwise_placed _ found).1 _ later
      rw [List.getElem?_append_right (by rw [same]; omega),same,← ih later]
      congr 1
      omega

theorem Lexes.token_at (lexed : Lexes text found) (member : (place,token) ∈ placed start found) :
    ∃ before rest, text = before ++ (token.text ++ rest) ∧ place = start + before.length ∧
      token.Stands rest := by
  have passes {first : Token} {others : List Char} {start : Nat}
      (later : ∃ before rest, others = before ++ (token.text ++ rest) ∧
        place = start + first.text.length + before.length ∧ token.Stands rest) :
      ∃ before rest, first.text ++ others = before ++ (token.text ++ rest) ∧
        place = start + before.length ∧ token.Stands rest := by
    obtain ⟨before,rest,rfl,reached,whole⟩ := later
    exact ⟨first.text ++ before,rest,by simp,by simp [reached,Nat.add_assoc],whole⟩
  induction lexed generalizing start with
  | done => cases member
  | @literal text _ _ whole _ ih =>
    rcases List.mem_cons.mp member with here | later
    · cases here
      exact ⟨[],_,rfl,rfl,whole⟩
    · exact @passes (.literal text) _ _ (ih later)
  | @comment text _ _ whole _ ih =>
    rcases List.mem_cons.mp member with here | later
    · cases here
      exact ⟨[],_,rfl,rfl,whole⟩
    · exact @passes (.comment text) _ _ (ih later)
  | @code c _ _ _ _ _ ih =>
    rcases List.mem_cons.mp member with here | later
    · cases here
      exact ⟨[],_,rfl,rfl,trivial⟩
    · exact @passes (.code c) _ _ (ih later)

end Places

def Token.isLiteral : Token → Bool
  | .literal _ => true
  | _ => false

def literalsFrom (start : Nat) (found : List Token) : List (Nat × Token) :=
  (placed start found).filter fun entry => entry.2.isLiteral

theorem literalTokens_inert {front : List Char} (inert : ∀ c ∈ front, isInert c = true)
    (rest : List Char) :
    literalTokens (front ++ rest) = front.map Token.code ++ literalTokens rest := by
  induction front with
  | nil => rfl
  | cons c front ih =>
    rw [List.forall_mem_cons] at inert
    rw [List.cons_append,literalTokens_code (isQuote_of_isInert inert.1),ih inert.2]
    rfl

theorem literalsFrom_code (front : List Char) (start : Nat) (others : List Token) :
    literalsFrom start (front.map Token.code ++ others) =
      literalsFrom (start + front.length) others := by
  induction front generalizing start with
  | nil => rfl
  | cons c front ih =>
    have passed : literalsFrom start ((c :: front).map Token.code ++ others) =
        literalsFrom (start + 1) (front.map Token.code ++ others) := rfl
    rw [passed,ih,List.length_cons]
    congr 1
    omega

/-- The literals found when the comments are masked are those of the text, each at its place. -/
theorem literalsFrom_maskComments (start : Nat) (text : List Char) :
    literalsFrom start (literalTokens (maskComments text)) = literalsFrom start (tokens text) := by
  induction text using byTokens generalizing start with
  | nil => rfl
  | literal c inside rest quoted ends ih =>
    rw [maskComments_literal quoted ends,tokens_literal quoted ends,
      literalTokens_literal quoted (literalLength_maskComments ends)]
    exact congrArg (List.cons _) (ih _)
  | comment c inside rest bare ends ih =>
    rw [maskComments_comment bare ends,tokens_comment bare ends,
      literalTokens_inert (inert_blanked _),literalsFrom_code,ih,blanked,List.length_map]
    rfl
  | code c rest bare plain ih =>
    rw [maskComments_code bare plain,tokens_code bare plain,literalTokens_code bare]
    exact ih (start + 1)

end Positions

/-- What a pass over the text writes for the token. -/
def Token.masked : Token → List Char
  | .code c => [c]
  | .literal text => hollow text
  | .comment text => blanked text

theorem maskLiterals_maskComments (text : List Char) :
    maskLiterals (maskComments text) = (tokens text).flatMap Token.masked := by
  induction text using byTokens with
  | nil => rfl
  | literal c inside rest quoted ends ih =>
    rw [maskComments_literal quoted ends,tokens_literal quoted ends,
      maskLiterals_literal quoted (literalLength_maskComments ends),ih]
    rfl
  | comment c inside rest bare ends ih =>
    rw [maskComments_comment bare ends,tokens_comment bare ends,
      maskLiterals_inert (inert_blanked _),ih]
    rfl
  | code c rest bare plain ih =>
    rw [maskComments_code bare plain,tokens_code bare plain,maskLiterals_code bare,ih]
    rfl

section Offsets
variable {text mask : List Char}

/-- What a mask may show for a character. -/
def Shows (c shown : Char) : Prop := shown = c ∨ c ≠ '\n' ∧ shown = ' '

theorem shows_blanked (text : List Char) : List.Forall₂ Shows text (blanked text) := by
  rw [blanked,List.forall₂_map_right_iff,List.forall₂_same]
  intro c _
  split
  · exact .inl rfl
  · next line => exact .inr ⟨by simpa using line,rfl⟩

theorem shows_hollow (text : List Char) : List.Forall₂ Shows text (hollow text) := by
  have same (c : Char) : Shows c c := .inl rfl
  match text with
  | [] => exact .nil
  | quote :: inside =>
    refine .cons (same quote) ?_
    rcases inside.eq_nil_or_concat with rfl | ⟨inside,last,rfl⟩
    · exact .nil
    · rw [List.concat_eq_append,List.dropLast_concat,List.getLast?_concat]
      exact List.rel_append (shows_blanked inside) (.cons (same last) .nil)

theorem Token.shows_masked (token : Token) : List.Forall₂ Shows token.text token.masked := by
  cases token with
  | code c => exact .cons (.inl rfl) .nil
  | literal text => exact shows_hollow text
  | comment text => exact shows_blanked text

theorem shows_flatMap_masked (found : List Token) :
    List.Forall₂ Shows (found.flatMap Token.text) (found.flatMap Token.masked) := by
  induction found with
  | nil => exact .nil
  | cons token found ih => exact List.rel_append token.shows_masked ih

theorem shows_masks (text : List Char) :
    List.Forall₂ Shows text (maskLiterals (maskComments text)) := by
  have shows := shows_flatMap_masked (tokens text)
  rwa [(lexes_tokens text).text_eq,← maskLiterals_maskComments] at shows

theorem getElem?_of_shows (shows : List.Forall₂ Shows text mask) (i : Nat) :
    mask[i]? = text[i]? ∨ text[i]? ≠ some '\n' ∧ mask[i]? = some ' ' := by
  induction shows generalizing i with
  | nil => exact .inl rfl
  | cons shown _ ih =>
    cases i with
    | zero =>
      simp only [List.getElem?_cons_zero,Option.some.injEq,ne_eq]
      exact shown
    | succ i => exact ih i

theorem lineBreak_of_shows (shows : List.Forall₂ Shows text mask) (i : Nat) :
    mask[i]? = some '\n' ↔ text[i]? = some '\n' := by
  rcases getElem?_of_shows shows i with same | ⟨other,blank⟩
  · rw [same]
  · rw [blank]
    exact ⟨fun line => absurd line (by decide),fun line => absurd line other⟩

/-- Masking the comments and then the literals writes what a single pass over the tokens writes: a
character of code as it is, a comment in blanks, and of a literal the first and last character. The
second pass meets the literals of the text and no others; and every place in the mask is one of the
text, with the same character or a blank, and with a line break where the text has one. -/
theorem masks_in_one_pass (text : List Char) :
    ∃ found : List Token, (∀ others, Lexes text others ↔ others = found) ∧
      maskLiterals (maskComments text) = found.flatMap Token.masked ∧
      literalsFrom 0 (literalTokens (maskComments text)) = literalsFrom 0 found ∧
      (maskLiterals (maskComments text)).length = text.length ∧
      (∀ i : Nat, (maskLiterals (maskComments text))[i]? = text[i]? ∨
        text[i]? ≠ some '\n' ∧ (maskLiterals (maskComments text))[i]? = some ' ') ∧
      ∀ i : Nat, (maskLiterals (maskComments text))[i]? = some '\n' ↔ text[i]? = some '\n' := by
  have shows := shows_masks text
  exact ⟨tokens text,fun _ => lexes_iff,maskLiterals_maskComments text,
    literalsFrom_maskComments 0 text,shows.length_eq.symm,getElem?_of_shows shows,
    lineBreak_of_shows shows⟩

end Offsets

section Changes
variable {content text : List Char} {place i : Nat}

theorem length_withoutComment (token : Token) :
    token.withoutComment.length = token.text.length := by
  cases token with
  | comment text => exact List.length_map _
  | code c => rfl
  | literal text => rfl

theorem mem_blanked {c : Char} (member : c ∈ blanked text) : c = ' ' ∨ c = '\n' := by
  obtain ⟨d,_,rfl⟩ := List.mem_map.mp member
  split
  · next line => exact .inr (beq_iff_eq.mp line)
  · exact .inl rfl

/-- Both masks are blank where the text has a comment. -/
theorem blank_of_comment (member : (place,.comment text) ∈ placed 0 (tokens content))
    (low : place ≤ i) (high : i < place + text.length) {c : Char}
    (shown : (maskComments content)[i]? = some c ∨
      (maskLiterals (maskComments content))[i]? = some c) : c = ' ' ∨ c = '\n' := by
  apply @mem_blanked text
  rcases shown with shown | shown
  · have same := getElem?_flatMap length_withoutComment member low high
    rw [Nat.sub_zero] at same
    exact List.mem_of_getElem? (same.symm.trans shown)
  · have same := getElem?_flatMap (fun token => token.shows_masked.length_eq.symm) member low high
    rw [Nat.sub_zero,← maskLiterals_maskComments] at same
    exact List.mem_of_getElem? (same.symm.trans shown)

/-- The place belongs to a literal. -/
def InLiteral (content : List Char) (i : Nat) : Prop :=
  ∃ entry ∈ placed 0 (tokens content),
    entry.2.isLiteral = true ∧ entry.1 ≤ i ∧ i < entry.1 + entry.2.text.length

/-- The place belongs to a comment. -/
def InComment (content : List Char) (i : Nat) : Prop :=
  ∃ place text, (place,.comment text) ∈ placed 0 (tokens content) ∧
    place ≤ i ∧ i < place + text.length

theorem kept_of_placed {token : Token} (member : (place,token) ∈ placed 0 (tokens content))
    (low : place ≤ i) (high : i < place + token.text.length)
    (kept : token.withoutComment = token.text) : (maskComments content)[i]? = content[i]? := by
  have shown := getElem?_flatMap length_withoutComment member low high
  have text := getElem?_flatMap (fun _ => rfl) member low high
  rw [(lexes_tokens content).text_eq,← kept] at text
  exact shown.trans text.symm

theorem kept_of_inLiteral (inside : InLiteral content i) :
    (maskComments content)[i]? = content[i]? := by
  obtain ⟨⟨place,token⟩,member,kind,low,high⟩ := inside
  cases token with
  | literal => exact kept_of_placed member low high rfl
  | code => cases kind
  | comment => cases kind

theorem length_maskComments (text : List Char) : (maskComments text).length = text.length := by
  have whole := congrArg List.length (lexes_tokens text).text_eq
  rw [List.length_flatMap] at whole
  rw [maskComments,List.length_flatMap,← whole]
  exact congrArg List.sum (List.map_congr_left fun token _ => length_withoutComment token)

theorem exists_token (inside : i < content.length) :
    ∃ place token, (place,token) ∈ placed 0 (tokens content) ∧ place ≤ i ∧
      i < place + token.text.length := by
  rw [← (lexes_tokens content).text_eq] at inside
  obtain ⟨⟨place,token⟩,member,low,high⟩ := @exists_placed 0 i _ inside
  rw [Nat.zero_add] at low high
  exact ⟨place,token,member,low,high⟩

/-- Masking comments changes a character in a comment only. -/
theorem inComment_of_ne (inside : i < content.length)
    (changed : (maskComments content)[i]? ≠ content[i]?) : InComment content i := by
  obtain ⟨place,token,member,low,high⟩ := exists_token inside
  cases token with
  | literal => exact absurd (kept_of_placed member low high rfl) changed
  | code => exact absurd (kept_of_placed member low high rfl) changed
  | comment text => exact ⟨place,text,member,low,high⟩

end Changes

end JavaAtlas.Lexical
