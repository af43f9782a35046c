import JavaAtlas.Proofs.Quotations

/-! Where literals end, and what the first of them holds. A literal goes on from its quote and ends
in the text, so that reading goes on as well; written with escapes, it ends with its own quote. The
contents are told from the extent by its last character, which closes most literals but not all. -/
namespace JavaAtlas.Lexical

section Interiors
variable {quote : Char} {inside rest s text : List Char}

theorem Inside.append (first : Inside quote inside) (second : Inside quote rest) :
    Inside quote (inside ++ rest) := by
  induction first with
  | nil => exact second
  | plain escape closes line _ ih => exact .plain escape closes line ih
  | escape c _ ih => exact .escape c ih

theorem inside_of_plain (plain : ∀ c ∈ text, c ≠ '\\' ∧ c ≠ quote ∧ c ≠ '\n') :
    Inside quote text := by
  induction text with
  | nil => exact .nil
  | cons c text ih =>
    rw [List.forall_mem_cons] at plain
    obtain ⟨⟨escape,closes,line⟩,others⟩ := plain
    exact .plain escape closes line (ih others)

theorem Inside.behind (first : Inside quote inside) (both : Inside quote (inside ++ rest)) :
    Inside quote rest := by
  induction first with
  | nil => exact both
  | @plain c front escape _ _ _ ih =>
    rw [List.cons_append] at both
    generalize shape : c :: (front ++ rest) = text at both
    cases both with
    | nil => cases shape
    | plain _ _ _ others =>
      obtain ⟨rfl,rfl⟩ := List.cons.inj shape
      exact ih others
    | escape => exact absurd (List.cons.inj shape).1 escape
  | escape c _ ih =>
    cases both with
    | plain escape => exact absurd rfl escape
    | escape _ others => exact ih others

/-- A quote inside of a literal stands behind a backslash. -/
theorem Inside.escaped_last (inside : Inside quote (s ++ [quote])) :
    ∃ front, s = front ++ ['\\'] ∧ Inside quote front := by
  generalize shape : s ++ [quote] = text at inside
  induction inside generalizing s with
  | nil => exact absurd shape (by simp)
  | @plain c rest escape closes line _ ih =>
    cases s with
    | nil => exact absurd (List.cons.inj shape).1.symm closes
    | cons d s =>
      obtain ⟨rfl,others⟩ := List.cons.inj shape
      obtain ⟨front,rfl,plain⟩ := ih others
      exact ⟨d :: front,rfl,.plain escape closes line plain⟩
  | @escape c rest _ ih =>
    -- The last quote may itself be what the backslash escapes, or stand further on.
    match s with
    | [] => cases shape
    | [d] =>
      cases shape
      exact ⟨[],rfl,.nil⟩
    | d :: e :: s =>
      simp only [List.cons_append,List.cons.injEq] at shape
      obtain ⟨rfl,rfl,others⟩ := shape
      obtain ⟨front,rfl,plain⟩ := ih others
      exact ⟨'\\' :: e :: front,rfl,.escape e plain⟩

/-- What may stand in a literal makes one with the quotes around it, unless these open a block. -/
theorem Inside.closed (quoted : isQuote quote = true) (plain : Inside quote inside)
    (apart : ¬(quote = '"' ∧ inside = [] ∧ rest.head? = some '"')) :
    IsLiteral (quote :: (inside ++ [quote])) rest := by
  refine .closed quoted plain (.inl rfl) ?_
  rintro ⟨more,shape⟩
  obtain ⟨rfl,second⟩ := List.cons.inj shape
  cases inside with
  | nil =>
    have third : '"' :: more = rest := (List.cons.inj second).2
    exact apart ⟨rfl,rfl,by rw [← third]; rfl⟩
  | cons d inside => exact plain.head_ne quoted rfl (List.cons.inj second).1.symm

end Interiors

section Ends
variable {quote c : Char} {text written before rest : List Char} {start : Nat}

/-- Where the literal ends that opens at the place. -/
def literalEnd (text : List Char) (start : Nat) : Nat := start + literalLength (text.drop start)

theorem literalEnd_append (before text : List Char) :
    literalEnd (before ++ text) before.length = before.length + literalLength text := by
  rw [literalEnd,List.drop_left]

theorem literalEnd_within (there : text[start]? = some c) :
    start < literalEnd text start ∧ literalEnd text start ≤ text.length := by
  obtain ⟨inside,rfl⟩ := List.getElem?_eq_some_iff.mp there
  have low := literalLength_pos text[start] (text.drop (start + 1))
  have high := literalLength_le (text.drop start)
  rw [← List.drop_eq_getElem_cons inside] at low
  rw [List.length_drop] at high
  rw [literalEnd]
  omega

/-- A text as it is written between quotes on one line: backslashes, such quotes and line breaks
become backslash sequences, and any other character may. -/
inductive Escaped (quote : Char) : List Char → List Char → Prop where
  | nil : Escaped quote [] []
  | plain {c : Char} {text written : List Char} : c ≠ '\\' → c ≠ quote → c ≠ '\n' →
      Escaped quote text written → Escaped quote (c :: text) (c :: written)
  | sequence (c : Char) {mark : Char} {more text written : List Char} : mark ≠ '\n' →
      (∀ d ∈ more, d ≠ '\\' ∧ d ≠ quote ∧ d ≠ '\n') → Escaped quote text written →
        Escaped quote (c :: text) ('\\' :: mark :: (more ++ written))

theorem Escaped.inside (writes : Escaped quote text written) : Inside quote written := by
  induction writes with
  | nil => exact .nil
  | plain escape closes line _ ih => exact .plain escape closes line ih
  | sequence c _ plain _ ih => exact .escape _ ((inside_of_plain plain).append ih)

theorem Escaped.eq_nil_iff (writes : Escaped quote text written) : written = [] ↔ text = [] := by
  cases writes <;> simp

theorem literalEnd_escaped (quoted : isQuote quote = true) (writes : Escaped quote text written) :
    literalEnd (before ++ quote :: (written ++ quote :: rest)) before.length =
        before.length + written.length + 2 ↔
      ¬(quote = '"' ∧ text = [] ∧ rest.head? = some '"') := by
  rw [literalEnd_append,← writes.eq_nil_iff]
  constructor
  · rintro ends ⟨rfl,rfl,third⟩
    obtain ⟨more,rfl⟩ := List.head?_eq_some_iff.mp third
    rw [List.nil_append,literalLength_triple] at ends
    have long := le_blockEnd more 3
    rw [List.length_nil] at ends
    omega
  · intro apart
    have length := (writes.inside.closed quoted apart).length
    rw [List.cons_append,List.append_assoc,List.singleton_append] at length
    rw [length]
    simp only [List.length_cons,List.length_append,List.length_nil]
    omega

end Ends

section Rounds
variable {text rest : List Char} {found : List Token} {token : Token}

/-- Rounds over a text: each takes at least one character, and where a quote stands the whole
literal. -/
inductive Rounds : List Char → List Token → Prop where
  | done : Rounds [] []
  | round {c : Char} {inside rest : List Char} {token : Token} {found : List Token} :
      token.text = c :: inside →
      (isQuote c = true → literalLength (c :: (inside ++ rest)) = inside.length + 1) →
      Rounds rest found → Rounds (c :: (inside ++ rest)) (token :: found)

theorem exists_first (comments : Bool) (c : Char) (rest : List Char) :
    ∃ inside more, rest = inside ++ more ∧ (Token.first comments c rest).text = c :: inside ∧
      (isQuote c = true → literalLength (c :: rest) = inside.length + 1) := by
  cases quoted : isQuote c with
  | true =>
    obtain ⟨inside,more,rfl,length⟩ := take_drop_split (literalLength_pos c rest)
      (literalLength_le (c :: rest))
    exact ⟨inside,more,rfl,by rw [first_literal comments quoted length]; rfl,fun _ => length⟩
  | false =>
    cases comments with
    | false => exact ⟨[],rest,rfl,by rw [Token.first,quoted]; rfl,nofun⟩
    | true =>
      cases comment : commentLength? (c :: rest) with
      | none => exact ⟨[],rest,rfl,by rw [first_code quoted comment]; rfl,nofun⟩
      | some length =>
        obtain ⟨_,low,high⟩ := commentLength?_eq_some comment
        obtain ⟨inside,more,rfl,rfl⟩ := take_drop_split (Nat.le_of_succ_le low) high
        exact ⟨inside,more,rfl,by rw [first_comment quoted comment]; rfl,nofun⟩

theorem rounds_tokensFrom (comments : Bool) : ∀ text, Rounds text (tokensFrom comments 0 text [])
  | [] => .done
  | c :: rest => by
    obtain ⟨inside,more,shape,whole,ends⟩ := exists_first comments c rest
    have shorter : more.length ≤ rest.length := by simp [shape]
    have above := rounds_tokensFrom comments more
    subst shape
    rw [tokensFrom_append rfl whole]
    exact .round whole ends above
termination_by text => text.length
decreasing_by simp only [List.length_cons]; omega

theorem Rounds.length_le (rounds : Rounds text found) : found.length ≤ text.length := by
  induction rounds with
  | done => exact Nat.le_refl 0
  | round _ _ _ ih =>
    simp only [List.length_cons,List.length_append]
    omega

/-- One round, with `before` the text behind which the rounds began. -/
theorem Rounds.ahead (rounds : Rounds text found) {before : List Char} {place : Nat}
    (member : (place,token) ∈ placed before.length found) :
    place < place + token.text.length ∧ place + token.text.length ≤ (before ++ text).length ∧
      ∀ quote, (before ++ text)[place]? = some quote → isQuote quote = true →
        place + token.text.length = literalEnd (before ++ text) place := by
  -- What a round takes moves in front of the text, so that later places stay the same.
  induction rounds generalizing before with
  | done => cases member
  | @round c inside rest first found whole ends _ ih =>
    rcases List.mem_cons.mp member with here | later
    · cases here
      refine ⟨by rw [whole]; simp,by rw [whole]; simp,?_⟩
      intro quote shown quoted
      rw [List.getElem?_append_right (Nat.le_refl _),Nat.sub_self] at shown
      cases shown
      rw [literalEnd_append,ends quoted,whole]
      rfl
    · have shape : before ++ c :: (inside ++ rest) = (before ++ first.text) ++ rest := by
        simp [whole]
      rw [← List.length_append] at later
      rw [shape]
      exact ih later

/-- A pass over a text by its tokens: it stays in the text and comes to its end, each round goes
on, and a literal is passed as a whole. -/
structure Passes (text : List Char) (found : List Token) : Prop where
  whole : found.flatMap Token.text = text
  few : found.length ≤ text.length
  ahead : ∀ place token, (place,token) ∈ placed 0 found →
    place < place + token.text.length ∧ place + token.text.length ≤ text.length
  literal : ∀ place token quote, (place,token) ∈ placed 0 found → text[place]? = some quote →
    isQuote quote = true → place + token.text.length = literalEnd text place

theorem Rounds.passes (rounds : Rounds text found) (whole : found.flatMap Token.text = text) :
    Passes text found where
  whole := whole
  few := rounds.length_le
  ahead place token member := by
    obtain ⟨further,within,_⟩ := @Rounds.ahead text found token rounds [] place member
    exact ⟨further,within⟩
  literal place token quote member shown quoted :=
    (@Rounds.ahead text found token rounds [] place member).2.2 quote shown quoted

/-- The extent of a literal goes on from its quote and stays in the text, so that comments and
literals are masked and a text is split in rounds that go on and end with it. A text that is
written between two quotes with escapes is passed up to the second of them, unless the quotes with
a third one open a block. -/
theorem literals_end_exactly (text contents : List Char) :
    (∀ start quote, text[start]? = some quote → isQuote quote = true →
      start < literalEnd text start ∧ literalEnd text start ≤ text.length) ∧
    Passes text (tokens text) ∧ Passes text (literalTokens text) ∧
    ∀ quote written before rest, isQuote quote = true → Escaped quote contents written →
      (literalEnd (before ++ quote :: (written ++ quote :: rest)) before.length =
          before.length + written.length + 2 ↔
        ¬(quote = '"' ∧ contents = [] ∧ rest.head? = some '"')) :=
  ⟨fun _ _ there _ => literalEnd_within there,
    (rounds_tokensFrom true text).passes (lexes_tokens text).text_eq,
    (rounds_tokensFrom false text).passes (quotes_literalTokens text).text_eq,
    fun _ _ _ _ => literalEnd_escaped⟩

/-- An escaped quote and an escaped line break, with another quote behind. -/
theorem literals_end_exactly_sequences :
    isQuote '"' = true ∧ Escaped '"' ['"','\n'] "\\\"\\n".toList ∧
      "f(\"\\\"\\n\", '\"')".toList[2]? = some '"' ∧
      2 < literalEnd "f(\"\\\"\\n\", '\"')".toList 2 ∧
      literalEnd ("f(".toList ++ '"' :: ("\\\"\\n".toList ++ '"' :: ", '\"')".toList)) 2 = 8 := by
  have line : Escaped '"' ['\n'] ['\\','n'] :=
    @Escaped.sequence '"' '\n' 'n' [] [] [] (by decide) nofun .nil
  have escaped : Escaped '"' ['"','\n'] "\\\"\\n".toList :=
    @Escaped.sequence '"' '"' '"' [] ['\n'] ['\\','n'] (by decide) nofun line
  obtain ⟨within,_,_,ends⟩ := literals_end_exactly "f(\"\\\"\\n\", '\"')".toList ['"','\n']
  exact ⟨rfl,escaped,rfl,(within 2 '"' rfl rfl).1,
    (ends '"' "\\\"\\n".toList "f(".toList ", '\"')".toList rfl escaped).mpr (by decide)⟩

end Rounds

section Contents

/-- The first double quote of a text opens a literal that is closed, and the contents stand between
its delimiters: up to a quote on the same line that is not escaped, or in a block, where a backslash
escapes nothing, up to the next three quotes. -/
inductive Contents : List Char → List Char → Prop where
  | line {before s rest : List Char} : '"' ∉ before → Inside '"' s → '\n' ∉ s →
      ¬tripleQuote <+: '"' :: (s ++ '"' :: rest) →
      Contents (before ++ '"' :: (s ++ '"' :: rest)) s
  | block {before s rest : List Char} : '"' ∉ before → ¬tripleQuote <:+: s ++ ['"','"'] →
      Contents (before ++ (tripleQuote ++ (s ++ (tripleQuote ++ rest)))) s

/-- The first double quote of a text opens a literal that ends with a quote, and still these are not
the contents: a block, of which two quotes stay at either end, a literal that the text leaves open
behind an escaped quote, or one that is carried over the end of its line. -/
inductive Misread : List Char → Prop where
  | block {before rest : List Char} : '"' ∉ before →
      tripleQuote <:+: rest ∨ (tripleQuote ++ rest).getLast? = some '"' →
      Misread (before ++ (tripleQuote ++ rest))
  | unclosed {before inside : List Char} : '"' ∉ before → Inside '"' inside →
      Misread (before ++ '"' :: (inside ++ ['\\','"']))
  | lines {before inside rest : List Char} : '"' ∉ before → Inside '"' inside → '\n' ∈ inside →
      Misread (before ++ '"' :: (inside ++ '"' :: rest))

variable {before inside rest s text : List Char}

theorem firstStringLiteral_extent (bare : '"' ∉ before) (whole : IsLiteral ('"' :: inside) rest) :
    firstStringLiteral (before ++ '"' :: (inside ++ rest)) =
      if inside.getLast? == some '"' then some inside.dropLast else none := by
  have length := whole.length
  have passed : (before ++ '"' :: (inside ++ rest)).dropWhile (· != '"') =
      '"' :: (inside ++ rest) := by
    rw [List.dropWhile_append_of_pos (fun c member => by
      rw [bne_iff_ne]
      rintro rfl
      exact bare member)]
    rfl
  rw [List.cons_append,List.length_cons] at length
  rw [firstStringLiteral,passed]
  simp only [length,Nat.add_sub_cancel,List.take_left]

theorem firstStringLiteral_closed (bare : '"' ∉ before)
    (whole : IsLiteral ('"' :: (s ++ ['"'])) rest) :
    firstStringLiteral (before ++ '"' :: (s ++ '"' :: rest)) = some s := by
  have answer := firstStringLiteral_extent bare whole
  rw [List.append_assoc,List.singleton_append] at answer
  rw [answer]
  simp

/-- What is read stands between the first and the last character of the first literal, if these are
quotes. -/
theorem firstStringLiteral_eq_some : firstStringLiteral text = some s ↔
    ∃ before rest, text = before ++ '"' :: (s ++ '"' :: rest) ∧ '"' ∉ before ∧
      IsLiteral ('"' :: (s ++ ['"'])) rest := by
  constructor
  · intro answer
    by_cases there : '"' ∈ text
    · obtain ⟨before,behind,rfl,bare⟩ := List.eq_append_cons_of_mem there
      obtain ⟨literal,rest,shape,whole⟩ := @exists_isLiteral '"' rfl behind
      obtain ⟨_,inside,rfl,_⟩ := whole.opens
      rw [List.cons_append] at shape
      obtain ⟨rfl,rfl⟩ := List.cons.inj shape
      rw [firstStringLiteral_extent bare whole] at answer
      split at answer
      · next ends =>
        obtain ⟨s,rfl⟩ := List.getLast?_eq_some_iff.mp (beq_iff_eq.mp ends)
        rw [List.dropLast_concat] at answer
        cases answer
        exact ⟨before,rest,by simp,bare,whole⟩
      · cases answer
    · have unquoted : text.dropWhile (· != '"') = [] := by
        rw [List.dropWhile_eq_nil_iff]
        intro c member
        rw [bne_iff_ne]
        rintro rfl
        exact there member
      rw [firstStringLiteral,unquoted] at answer
      cases answer
  · rintro ⟨before,rest,rfl,bare,whole⟩
    exact firstStringLiteral_closed bare whole

/-- A block is read with two of the quotes at either end. -/
theorem firstStringLiteral_block (bare : '"' ∉ before) (first : ¬tripleQuote <:+: s ++ ['"','"']) :
    firstStringLiteral (before ++ (tripleQuote ++ (s ++ (tripleQuote ++ rest)))) =
      some ('"' :: '"' :: (s ++ ['"','"'])) := by
  have whole := @IsLiteral.block s rest first
  have shape : tripleQuote ++ (s ++ tripleQuote) =
      '"' :: ('"' :: '"' :: (s ++ ['"','"']) ++ ['"']) := by simp [tripleQuote]
  rw [shape] at whole
  have answer := firstStringLiteral_closed bare whole
  simpa [tripleQuote] using answer

theorem Contents.answer (contents : Contents text s) :
    (firstStringLiteral text = some s ∧ Inside '"' s ∧ '\n' ∉ s) ∨
      firstStringLiteral text = some ('"' :: '"' :: (s ++ ['"','"'])) := by
  cases contents with
  | line bare inside oneLine single =>
    have whole := IsLiteral.closed rfl inside (.inl rfl) single
    exact .inl ⟨firstStringLiteral_closed bare whole,inside,oneLine⟩
  | block bare first => exact .inr (firstStringLiteral_block bare first)

/-- Contents that are read are those of a literal on one line. -/
theorem Contents.of_answer (contents : Contents text s)
    (answer : firstStringLiteral text = some s) : Inside '"' s ∧ '\n' ∉ s := by
  rcases contents.answer with ⟨_,line⟩ | block
  · exact line
  · rw [answer,Option.some.injEq] at block
    have longer := congrArg List.length block
    simp only [List.length_cons,List.length_append,List.length_nil] at longer
    omega

theorem firstStringLiteral_openBlock (bare : '"' ∉ before) (missing : ¬tripleQuote <:+: rest)
    (ends : (tripleQuote ++ rest).getLast? = some '"') :
    ∃ s, firstStringLiteral (before ++ (tripleQuote ++ rest)) = some ('"' :: s) := by
  obtain ⟨front,shape⟩ := List.getLast?_eq_some_iff.mp ends
  match front with
  | [] => cases shape
  | [_] => cases shape
  | c :: d :: s =>
    obtain ⟨rfl,second⟩ := List.cons.inj shape
    obtain ⟨rfl,_⟩ := List.cons.inj second
    have whole := @IsLiteral.openBlock rest missing
    rw [shape] at whole ⊢
    exact ⟨s,@firstStringLiteral_closed before [] ('"' :: s) bare whole⟩

theorem firstStringLiteral_unclosed (bare : '"' ∉ before) (plain : Inside '"' inside) :
    firstStringLiteral (before ++ '"' :: (inside ++ ['\\','"'])) = some (inside ++ ['\\']) := by
  have whole : IsLiteral ('"' :: (inside ++ ['\\'] ++ ['"'])) [] := by
    have literal := IsLiteral.unclosed rfl (plain.append (.escape '"' .nil)) (.inl rfl)
    simpa using literal
  have answer := firstStringLiteral_closed bare whole
  rwa [List.append_assoc] at answer

theorem Misread.answer (misread : Misread text) :
    ∃ s, firstStringLiteral text = some s ∧ ¬Contents text s := by
  cases misread with
  | @block before rest bare ends =>
    -- Contents on one line do not begin with a quote, and those of a block are not read.
    have opened : ∃ s, firstStringLiteral (before ++ (tripleQuote ++ rest)) = some ('"' :: s) := by
      by_cases closes : tripleQuote <:+: rest
      · obtain ⟨inside,more,rfl,first⟩ := exists_first_mark (by decide) closes
        exact ⟨_,firstStringLiteral_block bare first⟩
      · exact firstStringLiteral_openBlock bare closes (ends.resolve_left closes)
    obtain ⟨s,answer⟩ := opened
    exact ⟨_,answer,fun contents => (contents.of_answer answer).1.head_ne rfl rfl rfl⟩
  | @unclosed before inside bare plain =>
    have answer := firstStringLiteral_unclosed bare plain
    refine ⟨_,answer,?_⟩
    intro contents
    cases plain.behind (contents.of_answer answer).1 with
    | plain escape => exact escape rfl
  | @lines before inside rest bare plain line =>
    have apart : ¬('"' = '"' ∧ inside = [] ∧ rest.head? = some '"') := by
      rintro ⟨_,rfl,_⟩
      cases line
    have answer := firstStringLiteral_closed bare (plain.closed rfl apart)
    exact ⟨inside,answer,fun contents => (contents.of_answer answer).2 line⟩

theorem misread_or_contents (bare : '"' ∉ before) (whole : IsLiteral ('"' :: (s ++ ['"'])) rest) :
    Misread (before ++ '"' :: (s ++ '"' :: rest)) ∨
      Contents (before ++ '"' :: (s ++ '"' :: rest)) s := by
  generalize shape : '"' :: (s ++ ['"']) = literal at whole
  have text : before ++ '"' :: (s ++ '"' :: rest) = before ++ (literal ++ rest) := by simp [← shape]
  -- By the kind of literal: only one that is closed, and on one line, has these contents.
  cases whole with
  | @closed quote last inside rest quoted plain ends single =>
    obtain ⟨rfl,others⟩ := List.cons.inj shape
    obtain ⟨rfl,final⟩ := List.append_inj' others rfl
    obtain ⟨rfl,_⟩ := List.cons.inj final
    by_cases line : '\n' ∈ s
    · exact .inl (.lines bare plain line)
    · exact .inr (.line bare plain line single)
  | @unclosed quote inside stray quoted plain ends =>
    obtain ⟨rfl,others⟩ := List.cons.inj shape
    rcases ends with rfl | rfl
    · rw [List.append_nil] at others
      obtain ⟨front,rfl,within⟩ := Inside.escaped_last (others ▸ plain)
      rw [text,List.append_nil,List.append_nil,← others,List.append_assoc]
      exact .inl (.unclosed bare within)
    · obtain ⟨_,last⟩ := List.append_inj' others rfl
      cases last
  | @block inside rest first =>
    refine .inl ?_
    rw [text,List.append_assoc,List.append_assoc]
    exact .block bare (.inl ⟨inside,rest,by simp⟩)
  | @openBlock inside missing =>
    refine .inl ?_
    rw [text,List.append_nil]
    refine .block bare (.inr ?_)
    rw [← shape,← List.cons_append]
    exact List.getLast?_concat

/-- What is read stands between the two ends of the first literal in double quotes, if its last
character is a quote as well. These are the contents of a literal that is closed, and nothing is
read where there is none, unless the extent of the literal misleads. -/
theorem firstStringLiteral_contents (text : List Char) :
    (∀ s, firstStringLiteral text = some s ↔
      ∃ before rest, text = before ++ '"' :: (s ++ '"' :: rest) ∧ '"' ∉ before ∧
        IsLiteral ('"' :: (s ++ ['"'])) rest) ∧
      ((∀ s, firstStringLiteral text = some s ↔ Contents text s) ↔ ¬Misread text) := by
  refine ⟨fun s => firstStringLiteral_eq_some,?_,?_⟩
  · intro same misread
    obtain ⟨s,answer,others⟩ := misread.answer
    exact others ((same s).mp answer)
  · intro plain s
    constructor
    · intro answer
      obtain ⟨before,rest,rfl,bare,whole⟩ := firstStringLiteral_eq_some.mp answer
      exact (misread_or_contents bare whole).resolve_left plain
    · intro contents
      cases contents with
      | line bare inside _ single =>
        exact firstStringLiteral_closed bare (.closed rfl inside (.inl rfl) single)
      | @block before s rest bare first =>
        have closing : tripleQuote <:+: s ++ (tripleQuote ++ rest) := ⟨s,rest,by simp⟩
        exact absurd (.block bare (.inl closing)) plain

/-- A block is read with its quotes, and a literal that is never closed as if it were. -/
theorem block_read_with_quotes :
    (Contents "\"\"\"/a\"\"\"".toList "/a".toList ∧
      firstStringLiteral "\"\"\"/a\"\"\"".toList = some "\"\"/a\"\"".toList) ∧
      (∀ s, ¬Contents "\"a\\\"".toList s) ∧
      firstStringLiteral "\"a\\\"".toList = some "a\\".toList := by
  have answer : firstStringLiteral "\"a\\\"".toList = some "a\\".toList := by decide
  refine ⟨⟨@Contents.block [] "/a".toList [] nofun (by decide),by decide⟩,?_,answer⟩
  intro s contents
  rcases contents.answer with ⟨same,inside,_⟩ | block
  · rw [answer] at same
    obtain rfl := Option.some.inj same
    cases inside with
    | plain _ _ _ escape =>
      cases escape with
      | plain apart => exact apart rfl
  · rw [answer,Option.some.injEq] at block
    have longer := congrArg List.length block
    simp at longer

end Contents

end JavaAtlas.Lexical
