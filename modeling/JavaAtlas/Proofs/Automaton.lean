import JavaAtlas.Proofs.Lexing

/-! Comments told by an automaton that reads one character after another. It knows where it stands
by the characters read so far alone, so an opening mark is known as such only behind its second
character, and a text block only behind its third quote. Masking the comments blanks the places at
which the automaton is in a comment, and nothing else. -/
namespace JavaAtlas.Lexical

/-- Where a reader stands between two characters. -/
inductive Mode where
  | code
  /-- In code, behind a slash. -/
  | slash
  | lineComment
  /-- In a block comment, behind a star or not. The star of the opening mark does not count. -/
  | blockComment (star : Bool)
  /-- Behind the double quote that opens a string or a text block. -/
  | opened
  /-- Behind two of them: an empty string, unless a third one follows. -/
  | emptied
  /-- In a string or a character literal, by its quote, behind a backslash or not. -/
  | literal (quote : Char) (escaped : Bool)
  /-- In a text block, behind that many double quotes. -/
  | textBlock (quotes : Nat)
  deriving DecidableEq, Repr

namespace Mode

def isComment : Mode → Bool
  | lineComment => true
  | blockComment _ => true
  | _ => false

def ofCode (c : Char) : Mode :=
  if c = '/' then slash
  else if c = '"' then opened
  else if c = '\'' then literal c false
  else code

def within (quote : Char) (escaped : Bool) (c : Char) : Mode :=
  if escaped then literal quote false
  else if c = '\\' then literal quote true
  else if c = quote ∨ c = '\n' then code
  else literal quote false

def step : Mode → Char → Mode
  | code, c => ofCode c
  | slash, c =>
    if c = '/' then lineComment else if c = '*' then blockComment false else ofCode c
  | lineComment, c => if c = '\n' then code else lineComment
  | blockComment star, c => if star ∧ c = '/' then code else blockComment (c = '*')
  | opened, c => if c = '"' then emptied else within '"' false c
  | emptied, c => if c = '"' then textBlock 0 else ofCode c
  | literal quote escaped, c => within quote escaped c
  | textBlock quotes, c =>
    if c = '"' then if quotes = 2 then code else textBlock (quotes + 1) else textBlock 0

def run (mode : Mode) (text : List Char) : Mode := text.foldl step mode

/-- Whether the place is in a comment, its marks included: the reader is in one before the character
there, or behind it, or it is the slash of a mark and the reader is in one behind the next. The line
break behind a line comment counts, too, which makes no difference to a mask. -/
def covers (mode : Mode) (text : List Char) (i : Nat) : Bool :=
  (mode.run (text.take i)).isComment || (mode.run (text.take (i + 1))).isComment ||
    mode.run (text.take (i + 1)) = slash && (mode.run (text.take (i + 2))).isComment

end Mode

/-- Whether a reader of the text is in a comment at the place. -/
def commentAt (text : List Char) (i : Nat) : Bool := Mode.code.covers text i

namespace Mode
variable {mode : Mode} {c : Char} {text rest : List Char}

theorem isComment_ofCode (c : Char) : (ofCode c).isComment = false := by
  rw [ofCode]
  repeat' split
  all_goals rfl

theorem run_append (mode : Mode) (first second : List Char) :
    mode.run (first ++ second) = (mode.run first).run second := List.foldl_append

/-- The text as a reader writes it that blanks comments. -/
def write : Mode → List Char → List Char
  | _, [] => []
  | mode, c :: rest =>
    (if c ≠ '\n' ∧ mode.covers (c :: rest) 0 then ' ' else c) :: write (mode.step c) rest

theorem getElem?_write (mode : Mode) (text : List Char) (i : Nat) :
    (mode.write text)[i]? = text[i]?.map fun c => if c ≠ '\n' ∧ mode.covers text i then ' ' else c := by
  induction text generalizing mode i with
  | nil => rfl
  | cons c rest ih =>
    cases i with
    | zero => rfl
    | succ i => exact ih (mode.step c) i

/-- The reader is of a kind behind each character of the text. -/
def Stays (kind : Mode → Bool) : Mode → List Char → Prop
  | _, [] => True
  | mode, c :: rest => kind (mode.step c) = true ∧ Stays kind (mode.step c) rest

theorem stays_append {kind : Mode → Bool} {first second : List Char} :
    Stays kind mode (first ++ second) ↔ Stays kind mode first ∧ Stays kind (mode.run first) second := by
  induction first generalizing mode with
  | nil => simp [Stays,run]
  | cons c first ih => rw [List.cons_append,Stays,Stays,ih,and_assoc]; rfl

/-- Neither in a comment nor at what may be the beginning of one. -/
def isOutside (mode : Mode) : Bool := !mode.isComment && mode ≠ slash

theorem not_isComment_of_isOutside (outside : mode.isOutside = true) : mode.isComment = false := by
  rw [isOutside,Bool.and_eq_true,Bool.not_eq_true'] at outside
  exact outside.1

/-- Where the mode behind a character is plain, the character is kept. -/
theorem not_covers (starts : mode.isComment = false) (outside : (mode.step c).isOutside = true) :
    mode.covers (c :: rest) 0 = false := by
  have next := not_isComment_of_isOutside outside
  rw [isOutside,Bool.and_eq_true,decide_eq_true_eq] at outside
  simp [covers,run,starts,next,outside.2]

theorem write_outside (starts : mode.isComment = false) (stays : Stays isOutside mode text)
    (rest : List Char) : mode.write (text ++ rest) = text ++ (mode.run text).write rest := by
  induction text generalizing mode with
  | nil => rfl
  | cons c text ih =>
    obtain ⟨outside,others⟩ := stays
    have next := not_isComment_of_isOutside outside
    rw [List.cons_append,write,not_covers starts outside,ih next others]
    simp [run]

theorem write_within (starts : mode.isComment = true) (c : Char) (rest : List Char) :
    mode.write (c :: rest) = blanked [c] ++ (mode.step c).write rest := by
  have covered : mode.covers (c :: rest) 0 = true := by simp [covers,run,starts]
  rw [write,covered]
  by_cases line : c = '\n' <;> simp [blanked,line]

theorem write_inside (starts : mode.isComment = true) (stays : Stays isComment mode text)
    (rest : List Char) : mode.write (text ++ rest) = blanked text ++ (mode.run text).write rest := by
  induction text generalizing mode with
  | nil => rfl
  | cons c text ih =>
    rw [List.cons_append,write_within starts,ih stays.1 stays.2]
    rfl

/-- What comes next is read as it is in code. -/
def Settled (mode : Mode) (text : List Char) : Prop :=
  ∀ c ∈ text.head?, mode.step c = ofCode c ∧ (mode.isComment = true → c = '\n')

theorem settled_code (text : List Char) : Settled code text := fun _ _ => ⟨rfl,nofun⟩

theorem settled_nil (mode : Mode) : Settled mode [] := nofun

theorem Settled.not_isComment (settled : Settled mode (c :: rest)) (line : c ≠ '\n') :
    mode.isComment = false := by
  rw [Bool.eq_false_iff]
  exact fun comment => line ((settled c rfl).2 comment)

section Literals
variable {quote : Char} {inside : List Char}

theorem run_inside (plain : Inside quote inside) :
    (literal quote false).run inside = literal quote false ∧
      Stays isOutside (literal quote false) inside := by
  induction plain with
  | nil => exact ⟨rfl,trivial⟩
  | @plain c rest escape closes line _ ih =>
    have same : (literal quote false).step c = literal quote false := by
      simp [step,within,escape,closes,line]
    rw [run,List.foldl_cons,same,Stays,same]
    exact ⟨ih.1,rfl,ih.2⟩
  | escape c _ ih => exact ⟨ih.1,rfl,rfl,ih.2⟩

theorem step_close {last : Char} (quoted : isQuote quote = true) (ends : last = quote ∨ last = '\n') :
    (literal quote false).step last = code := by
  have bare : last ≠ '\\' := by
    rintro rfl
    rcases ends with rfl | line
    · cases quoted
    · cases line
  simp [step,within,bare,ends]

/-- Behind its first quote a string is read as such if no second quote follows. -/
theorem run_opened {c : Char} (apart : c ≠ '"') (text : List Char) :
    opened.run (c :: text) = (literal '"' false).run (c :: text) ∧
      (Stays isOutside opened (c :: text) ↔ Stays isOutside (literal '"' false) (c :: text)) := by
  have same : opened.step c = (literal '"' false).step c := by simp [step,apart]
  rw [run,run,List.foldl_cons,List.foldl_cons,Stays,Stays,same]
  exact ⟨rfl,Iff.rfl⟩

theorem run_ofCode (quoted : isQuote quote = true) {c : Char} (apart : quote = '"' → c ≠ '"')
    (text : List Char) :
    (ofCode quote).run (c :: text) = (literal quote false).run (c :: text) ∧
      (Stays isOutside (ofCode quote) (c :: text) ↔
        Stays isOutside (literal quote false) (c :: text)) := by
  rw [isQuote,Bool.or_eq_true,beq_iff_eq,beq_iff_eq] at quoted
  rcases quoted with rfl | rfl
  · exact run_opened (apart rfl) text
  · exact ⟨rfl,Iff.rfl⟩

/-- A string that does not begin with two quotes is read to its end as one. -/
theorem run_body {tail : List Char} (quoted : isQuote quote = true) (plain : Inside quote inside)
    (stays : Stays isOutside (literal quote false) tail)
    (apart : inside = [] → quote = '"' → tail.head? ≠ some '"') :
    Stays isOutside (ofCode quote) (inside ++ tail) ∧
      (tail ≠ [] → (ofCode quote).run (inside ++ tail) = (literal quote false).run tail) := by
  obtain ⟨same,through⟩ := run_inside plain
  have whole : Stays isOutside (literal quote false) (inside ++ tail) := by
    rw [stays_append,same]
    exact ⟨through,stays⟩
  have far : (literal quote false).run (inside ++ tail) = (literal quote false).run tail := by
    rw [run_append,same]
  cases shape : inside ++ tail with
  | nil => exact ⟨trivial,fun further => absurd (List.append_eq_nil_iff.mp shape).2 further⟩
  | cons c body =>
    have first : quote = '"' → c ≠ '"' := by
      rintro rfl rfl
      cases inside with
      | nil =>
        rw [List.nil_append] at shape
        exact apart rfl rfl (by rw [shape]; rfl)
      | cons d inside => exact plain.head_ne quoted rfl (List.cons.inj shape).1
    obtain ⟨alike,kept⟩ := run_ofCode quoted first body
    rw [shape] at whole far
    exact ⟨kept.mpr whole,fun _ => alike.trans far⟩

/-- Without three quotes in a row a text block goes on. -/
theorem run_textBlock {quotes : Nat} (few : quotes ≤ 2)
    (missing : ¬tripleQuote <:+: List.replicate quotes '"' ++ inside) :
    ∃ more ≤ 2, (textBlock quotes).run inside = textBlock more ∧
      Stays isOutside (textBlock quotes) inside := by
  induction inside generalizing quotes with
  | nil => exact ⟨quotes,few,rfl,trivial⟩
  | cons c inside ih =>
    by_cases quote : c = '"'
    · subst quote
      have further : quotes ≠ 2 := by
        rintro rfl
        exact missing (List.prefix_append tripleQuote inside).isInfix
      have same : (textBlock quotes).step '"' = textBlock (quotes + 1) := by simp [step,further]
      rw [List.append_cons,← List.replicate_succ'] at missing
      obtain ⟨more,low,reached,stays⟩ := ih (by omega) missing
      rw [run,List.foldl_cons,Stays,same]
      exact ⟨more,low,reached,rfl,stays⟩
    · have same : (textBlock quotes).step c = textBlock 0 := by simp [step,quote]
      have later : ¬tripleQuote <:+: List.replicate 0 '"' ++ inside := fun found =>
        missing (found.trans ((List.suffix_cons c inside).trans (List.suffix_append _ _)).isInfix)
      obtain ⟨more,low,reached,stays⟩ := ih (Nat.zero_le 2) later
      rw [run,List.foldl_cons,Stays,same]
      exact ⟨more,low,reached,rfl,stays⟩

/-- The first three quotes in a row close a text block. -/
theorem run_closingBlock (first : ¬tripleQuote <:+: inside ++ ['"','"']) :
    (textBlock 0).run (inside ++ tripleQuote) = code ∧
      Stays isOutside (textBlock 0) (inside ++ tripleQuote) := by
  obtain ⟨more,_,reached,stays⟩ := @run_textBlock (inside ++ ['"','"']) 0 (by decide) first
  obtain ⟨before,few,arrived,_⟩ := @run_textBlock inside 0 (by decide) fun found =>
    first (found.trans (List.prefix_append inside _).isInfix)
  -- Two more quotes leave the block open, so none stood before them.
  have two : more = 2 := by
    rw [run_append,arrived] at reached
    match before, few with
    | 0, _ => exact (textBlock.inj reached).symm
    | 1, _ => cases reached
    | 2, _ => cases reached
  have shape : inside ++ tripleQuote = (inside ++ ['"','"']) ++ ['"'] := by simp [tripleQuote]
  rw [shape,run_append,stays_append,reached,two]
  exact ⟨rfl,stays,rfl,trivial⟩

/-- Behind a literal that is read as one from its quote on. -/
theorem write_quoted {rest : List Char} (quoted : isQuote quote = true)
    (settled : Settled mode (quote :: (inside ++ rest)))
    (stays : Stays isOutside (ofCode quote) inside) :
    mode.run (quote :: inside) = (ofCode quote).run inside ∧
      mode.write (quote :: (inside ++ rest)) =
        quote :: (inside ++ (mode.run (quote :: inside)).write rest) := by
  have same := (settled quote rfl).1
  have starts := settled.not_isComment (by rintro rfl; cases quoted)
  have outside : (ofCode quote).isOutside = true := by
    rw [isQuote,Bool.or_eq_true,beq_iff_eq,beq_iff_eq] at quoted
    rcases quoted with rfl | rfl <;> rfl
  refine ⟨congrArg (run · inside) same,?_⟩
  exact @write_outside mode (quote :: inside) starts (by rw [Stays,same]; exact ⟨outside,stays⟩) rest

theorem write_literal {rest : List Char} (whole : IsLiteral text rest)
    (settled : Settled mode (text ++ rest)) :
    mode.write (text ++ rest) = text ++ (mode.run text).write rest ∧
      Settled (mode.run text) rest := by
  cases whole with
  | @closed quote last inside rest quoted plain ends single =>
    by_cases empty : inside = [] ∧ quote = '"' ∧ last = '"'
    · obtain ⟨rfl,rfl,rfl⟩ := empty
      obtain ⟨reached,written⟩ := @write_quoted mode '"' ['"'] rest rfl settled ⟨rfl,trivial⟩
      refine ⟨written,?_⟩
      rw [List.nil_append,reached]
      intro c head
      have apart : c ≠ '"' := by
        rintro rfl
        obtain ⟨more,rfl⟩ := List.head?_eq_some_iff.mp head
        exact single ⟨more,rfl⟩
      change step emptied c = _ ∧ _
      exact ⟨by simp [step,apart],nofun⟩
    · have closes := step_close quoted ends
      have apart : inside = [] → quote = '"' → [last].head? ≠ some '"' := by
        intro hollow double second
        exact empty ⟨hollow,double,Option.some.inj second⟩
      obtain ⟨stays,arrives⟩ := @run_body quote inside [last] quoted plain
        (by rw [Stays,closes]; exact ⟨rfl,trivial⟩) apart
      obtain ⟨reached,written⟩ := write_quoted quoted (by simpa using settled) stays
      refine ⟨by simpa using written,?_⟩
      rw [reached,arrives (by simp),run,List.foldl_cons,closes]
      exact settled_code rest
  | @unclosed quote inside stray quoted plain ends =>
    have stays : Stays isOutside (literal quote false) stray := by
      rcases ends with rfl | rfl
      · trivial
      · exact ⟨rfl,trivial⟩
    have apart : inside = [] → quote = '"' → stray.head? ≠ some '"' := by
      rcases ends with rfl | rfl <;> simp
    exact ⟨(@write_quoted mode quote (inside ++ stray) [] quoted settled
      (run_body quoted plain stays apart).1).2,settled_nil _⟩
  | @block inside rest first =>
    obtain ⟨reached,stays⟩ := run_closingBlock first
    obtain ⟨arrived,written⟩ := @write_quoted mode '"' ('"' :: '"' :: (inside ++ tripleQuote)) rest rfl
      settled ⟨rfl,rfl,stays⟩
    refine ⟨written,?_⟩
    change Settled (mode.run ('"' :: '"' :: '"' :: (inside ++ tripleQuote))) rest
    rw [arrived]
    change Settled ((textBlock 0).run (inside ++ tripleQuote)) rest
    rw [reached]
    exact settled_code rest
  | @openBlock inside missing =>
    obtain ⟨_,_,_,stays⟩ := @run_textBlock inside 0 (by decide) missing
    exact ⟨(@write_quoted mode '"' ('"' :: '"' :: inside) [] rfl settled ⟨rfl,rfl,stays⟩).2,
      settled_nil _⟩

end Literals

section Comments
variable {inside : List Char}

/-- Without a closing mark a block comment goes on. -/
theorem run_blockComment {star : Bool}
    (missing : ¬commentClosing <:+: (if star then ['*'] else []) ++ inside) :
    ∃ again, (blockComment star).run inside = blockComment again ∧
      Stays isComment (blockComment star) inside := by
  induction inside generalizing star with
  | nil => exact ⟨star,rfl,trivial⟩
  | cons c inside ih =>
    have further : ¬(star = true ∧ c = '/') := by
      rintro ⟨rfl,rfl⟩
      exact missing (List.prefix_append commentClosing inside).isInfix
    have same : (blockComment star).step c = blockComment (c = '*') := by
      rw [step,if_neg further]
    have later : ¬commentClosing <:+: (if decide (c = '*') = true then ['*'] else []) ++ inside := by
      intro found
      apply missing
      by_cases mark : c = '*'
      · subst mark
        exact found.trans (List.suffix_append _ _).isInfix
      · rw [if_neg (by simpa using mark)] at found
        exact found.trans ((List.suffix_cons c inside).trans (List.suffix_append _ _)).isInfix
    obtain ⟨again,reached,stays⟩ := ih later
    rw [run,List.foldl_cons,Stays,same]
    exact ⟨again,reached,rfl,stays⟩

theorem run_lineComment (oneLine : '\n' ∉ inside) :
    lineComment.run inside = lineComment ∧ Stays isComment lineComment inside := by
  induction inside with
  | nil => exact ⟨rfl,trivial⟩
  | cons c inside ih =>
    rw [List.mem_cons,not_or] at oneLine
    have same : lineComment.step c = lineComment := by simp [step,Ne.symm oneLine.1]
    rw [run,List.foldl_cons,Stays,same]
    exact ⟨(ih oneLine.2).1,rfl,(ih oneLine.2).2⟩

/-- Behind an opening mark, of which the first character becomes known by the second. -/
theorem write_opening {second : Char} (opens : (slash.step second).isComment = true)
    {rest : List Char} (settled : Settled mode ('/' :: second :: rest)) :
    mode.run ['/',second] = slash.step second ∧
      mode.write ('/' :: second :: rest) = blanked ['/',second] ++ (slash.step second).write rest := by
  have same : mode.step '/' = slash := (settled '/' rfl).1
  have one : mode.covers ('/' :: second :: rest) 0 = true := by simp [covers,run,same,opens]
  have two : slash.covers (second :: rest) 0 = true := by simp [covers,run,opens]
  have line : second ≠ '\n' := by
    rintro rfl
    cases opens
  refine ⟨by rw [run,List.foldl_cons,same]; rfl,?_⟩
  rw [write,one,same,write,two]
  simp [blanked,line]

theorem write_comment {rest : List Char} (whole : IsComment text rest)
    (settled : Settled mode (text ++ rest)) :
    mode.write (text ++ rest) = blanked text ++ (mode.run text).write rest ∧
      Settled (mode.run text) rest := by
  have after {second : Char} (opens : (slash.step second).isComment = true) {inside rest : List Char}
      (settled : Settled mode ('/' :: second :: (inside ++ rest)))
      (written : (slash.step second).write (inside ++ rest) =
        blanked inside ++ ((slash.step second).run inside).write rest)
      (ends : Settled ((slash.step second).run inside) rest) :
      mode.write ('/' :: second :: inside ++ rest) = blanked ('/' :: second :: inside) ++
          (mode.run ('/' :: second :: inside)).write rest ∧
        Settled (mode.run ('/' :: second :: inside)) rest := by
    obtain ⟨reached,opening⟩ := write_opening opens settled
    have arrives : mode.run ('/' :: second :: inside) = (slash.step second).run inside := by
      rw [← reached]
      rfl
    rw [arrives]
    refine ⟨?_,ends⟩
    rw [List.cons_append,List.cons_append,opening,written]
    simp [blanked]
  cases whole with
  | @line inside rest oneLine ends =>
    obtain ⟨same,stays⟩ := run_lineComment oneLine
    refine after rfl settled (write_inside rfl stays rest) ?_
    change Settled (lineComment.run inside) rest
    rw [same]
    intro c head
    rcases ends with rfl | line
    · cases head
    · cases line.symm.trans head
      exact ⟨rfl,fun _ => rfl⟩
  | @block inside rest first =>
    obtain ⟨star,reached,stays⟩ := @run_blockComment (inside ++ ['*']) false first
    have starred : (blockComment false).run (inside ++ ['*']) = blockComment true := by
      obtain ⟨before,arrived,_⟩ := @run_blockComment inside false fun found =>
        first (found.trans (List.prefix_append inside _).isInfix)
      have plain : (blockComment before).step '*' = blockComment true := by simp [step]
      rw [run_append,arrived,run,List.foldl_cons,plain]
      rfl
    have shape : inside ++ commentClosing = (inside ++ ['*']) ++ ['/'] := by simp [commentClosing]
    rw [shape] at settled ⊢
    have closes : (blockComment false).run (inside ++ ['*'] ++ ['/']) = code := by
      rw [run_append,starred]
      rfl
    refine after rfl settled ?_ ?_
    · change (blockComment false).write _ = _ ++ ((blockComment false).run _).write rest
      rw [closes,List.append_assoc,write_inside rfl stays,starred,List.singleton_append,
        write_within rfl]
      simp [blanked,step]
    · change Settled ((blockComment false).run _) rest
      rw [closes]
      exact settled_code rest
  | @openBlock inside missing =>
    obtain ⟨_,_,stays⟩ := @run_blockComment inside false missing
    exact after rfl settled (write_inside rfl stays []) (settled_nil _)

end Comments

theorem write_code (bare : isQuote c = false)
    (plain : ¬(c = '/' ∧ (rest.head? = some '/' ∨ rest.head? = some '*')))
    (settled : Settled mode (c :: rest)) :
    mode.write (c :: rest) = c :: (mode.step c).write rest ∧ Settled (mode.step c) rest := by
  have same := (settled c rfl).1
  rw [isQuote,Bool.or_eq_false_iff,beq_eq_false_iff_ne,beq_eq_false_iff_ne] at bare
  by_cases mark : c = '/'
  · subst mark
    have settles : Settled slash rest := by
      intro d head
      have apart : d ≠ '/' ∧ d ≠ '*' := by
        constructor
        · rintro rfl
          exact plain ⟨rfl,.inl head⟩
        · rintro rfl
          exact plain ⟨rfl,.inr head⟩
      exact ⟨by simp [step,apart],nofun⟩
    have bare : mode.covers ('/' :: rest) 0 = false := by
      have next : (slash.run (rest.take 1)).isComment = false := by
        cases rest with
        | nil => rfl
        | cons d rest => exact (congrArg isComment (settles d rfl).1).trans (isComment_ofCode d)
      have one : mode.run (('/' :: rest).take 1) = slash := same
      have two : mode.run (('/' :: rest).take 2) = slash.run (rest.take 1) :=
        congrArg (run · (rest.take 1)) same
      rw [covers,two,one,next,List.take_zero,run,List.foldl_nil,settled.not_isComment (by decide)]
      rfl
    have slash_ : mode.step '/' = slash := same
    rw [write,bare,slash_]
    exact ⟨rfl,settles⟩
  · have code_ : mode.step c = code := by rw [same,ofCode,if_neg mark,if_neg bare.1,if_neg bare.2]
    rw [write,code_]
    refine ⟨?_,settled_code rest⟩
    by_cases break_ : c = '\n'
    · rw [if_neg (fun both => both.1 break_)]
    · rw [not_covers (settled.not_isComment break_) (by rw [code_]; rfl),if_neg nofun]

/-- Token by token, what comments hide from the lexer is what the reader blanks. -/
theorem write_lexes {found : List Token} (lexed : Lexes text found) (settled : Settled mode text) :
    mode.write text = found.flatMap Token.withoutComment := by
  induction lexed generalizing mode with
  | done => rfl
  | literal whole _ ih =>
    obtain ⟨written,ends⟩ := write_literal whole settled
    rw [written,ih ends]
    rfl
  | comment whole _ ih =>
    obtain ⟨written,ends⟩ := write_comment whole settled
    rw [written,ih ends]
    rfl
  | code bare plain _ ih =>
    obtain ⟨written,ends⟩ := write_code bare plain settled
    rw [written,ih ends]
    rfl

end Mode

theorem maskComments_eq_write (text : List Char) : maskComments text = Mode.code.write text :=
  (Mode.write_lexes (lexes_tokens text) (Mode.settled_code text)).symm

/-- Masking comments twice is masking them once. It keeps the length of the text, and leaves a blank
at each place where the automaton is in a comment, line breaks apart, and elsewhere the character of
the text. -/
theorem maskComments_by_automaton (text : List Char) :
    maskComments (maskComments text) = maskComments text ∧
      (maskComments text).length = text.length ∧
      ∀ i : Nat, (maskComments text)[i]? =
        text[i]?.map fun c => if c ≠ '\n' ∧ commentAt text i then ' ' else c := by
  refine ⟨maskComments_maskComments text,length_maskComments text,fun i => ?_⟩
  rw [maskComments_eq_write]
  exact Mode.getElem?_write Mode.code text i

/-- The slash behind the opening mark closes nothing, and a quote opens nothing. -/
example : (List.range 9).filter (commentAt "x/*/'*/y".toList) = [1,2,3,4,5,6] := by decide

end JavaAtlas.Lexical
