import JavaAtlas.Java.Method
import JavaAtlas.Proofs.Marks

/-! Declarations of methods in a text with comments and literals masked. -/
namespace JavaAtlas

namespace Lexical

/-- No boundary is of a kind that has none of the three. -/
theorem not_boundary {kind : Char → Bool} {c : Char}
    (unmarked : ∀ mark ∈ [';','\x7b','\x7d'], kind mark = false) (holds : kind c = true) :
    isBoundary c = false := by
  rw [Bool.eq_false_iff]
  intro boundary
  rw [unmarked c (by simpa using isBoundary_iff.mp boundary)] at holds
  cases holds

/-- The closing parentheses of a text that are still to be met by their opening ones when the text
has been walked through from its end. -/
def unmet : List Char → Nat
  | [] => 0
  | c :: rest =>
    if c == ')' then unmet rest + 1
    else if c == '(' then unmet rest - 1
    else unmet rest

theorem unmet_closing (rest : List Char) : unmet (')' :: rest) = unmet rest + 1 := rfl

theorem unmet_opening (rest : List Char) : unmet ('(' :: rest) = unmet rest - 1 := rfl

theorem unmet_plain {c : Char} (opening : c ≠ '(') (closing : c ≠ ')') (rest : List Char) :
    unmet (c :: rest) = unmet rest := by
  rw [unmet,if_neg (by simpa using closing),if_neg (by simpa using opening)]

section Walk
variable {c : Char} {seen before : List Char}

theorem startBefore_stop (boundary : isBoundary c = true) (met : unmet seen = 0) :
    startBefore (unmet seen) (c :: before) = before.length + 1 := by
  have apart : c ≠ ')' ∧ c ≠ '(' := by
    constructor <;>
    · rintro rfl
      cases boundary
  rw [startBefore,if_neg (by simpa using apart.1),if_neg (by simpa using apart.2),met,boundary]
  rfl

theorem startBefore_step (further : ¬(isBoundary c = true ∧ unmet seen = 0)) :
    startBefore (unmet seen) (c :: before) = startBefore (unmet (c :: seen)) before := by
  rw [startBefore,unmet]
  split
  · rfl
  · split
    · rfl
    · rw [if_neg]
      rintro stays
      rw [Bool.and_eq_true,beq_iff_eq] at stays
      exact further stays.symm

/-- What the walk back through a text leaves and what it passes, when the text behind has been passed
already. -/
theorem startBefore_walk (before seen : List Char) : ∃ kept passed,
    before.reverse = kept ++ passed ∧ startBefore (unmet seen) before = kept.length ∧
      (kept = [] ∨ (∃ c, kept.getLast? = some c ∧ isBoundary c = true) ∧ unmet (passed ++ seen) = 0) ∧
      ∀ front c back, passed = front ++ c :: back → isBoundary c = true → unmet (back ++ seen) ≠ 0 := by
  induction before generalizing seen with
  | nil => exact ⟨[],[],rfl,rfl,.inl rfl,fun front c back shape => by simp at shape⟩
  | cons c before ih =>
    by_cases ends : isBoundary c = true ∧ unmet seen = 0
    · refine ⟨before.reverse ++ [c],[],by simp,?_,.inr ⟨⟨c,by simp,ends.1⟩,ends.2⟩,
        fun front c back shape => by simp at shape⟩
      rw [startBefore_stop ends.1 ends.2]
      simp
    · obtain ⟨kept,passed,shape,start,behind,enclosed⟩ := ih (c :: seen)
      refine ⟨kept,passed ++ [c],by simp [shape],?_,?_,?_⟩
      · rw [startBefore_step ends,start]
      · rwa [List.append_assoc,List.singleton_append]
      · intro front d back more boundary
        rcases back.eq_nil_or_concat with rfl | ⟨back,last,rfl⟩
        · obtain ⟨_,same⟩ := List.append_inj' more rfl
          cases same
          exact fun met => ends ⟨boundary,met⟩
        · rw [List.concat_eq_append] at more ⊢
          rw [← List.cons_append,← List.append_assoc] at more
          obtain ⟨rfl,same⟩ := List.append_inj' more rfl
          cases same
          rw [List.append_assoc]
          exact enclosed front d back rfl boundary

theorem declarationStart_walk (text : List Char) (stop : Nat) : ∃ kept passed,
    text.take stop = kept ++ passed ∧ declarationStart text stop = kept.length ∧
      (kept = [] ∨ (∃ c, text[kept.length - 1]? = some c ∧ isBoundary c = true) ∧ unmet passed = 0) ∧
      ∀ front c back, passed = front ++ c :: back → isBoundary c = true → unmet back ≠ 0 := by
  obtain ⟨kept,passed,shape,start,behind,enclosed⟩ := startBefore_walk (text.take stop).reverse []
  simp only [List.append_nil] at behind enclosed
  rw [List.reverse_reverse] at shape
  refine ⟨kept,passed,shape,start,behind.imp_right fun ⟨⟨c,last,boundary⟩,met⟩ => ?_,enclosed⟩
  refine ⟨⟨c,?_,boundary⟩,met⟩
  obtain ⟨rest,rfl⟩ : kept <+: text :=
    (shape ▸ List.prefix_append kept passed).trans (List.take_prefix stop text)
  rw [List.getLast?_eq_getElem?] at last
  rw [List.getElem?_append_left (List.getElem?_eq_some_iff.mp last).1,last]

/-- A declaration starts with the text or behind a boundary. -/
theorem boundary_of_declarationStart (text : List Char) (stop : Nat) :
    declarationStart text stop = 0 ∨
      ∃ c, text[declarationStart text stop - 1]? = some c ∧ isBoundary c = true := by
  obtain ⟨kept,passed,_,start,behind,_⟩ := declarationStart_walk text stop
  rw [start]
  rcases behind with rfl | ⟨boundary,_⟩
  · exact .inl rfl
  · exact .inr boundary

end Walk

/-- A text that the walk back to the start of a declaration passes over as a whole. -/
def Level (text : List Char) : Prop :=
  ∀ depth before, startBefore depth (text.reverse ++ before) = startBefore depth before

theorem level_nil : Level [] := fun _ _ => rfl

theorem Level.append {first second : List Char} (one : Level first) (two : Level second) :
    Level (first ++ second) := by
  intro depth before
  rw [List.reverse_append,List.append_assoc,two,one]

/-- Inside parentheses a boundary ends nothing. -/
theorem startBefore_passes {text : List Char} {depth : Nat} (before : List Char)
    (passed : ∀ c ∈ text, c ≠ ')' ∧ c ≠ '(' ∧ (depth = 0 → isBoundary c = false)) :
    startBefore depth (text ++ before) = startBefore depth before := by
  induction text with
  | nil => rfl
  | cons c text ih =>
    rw [List.forall_mem_cons] at passed
    obtain ⟨⟨close,opening,inside⟩,others⟩ := passed
    rw [List.cons_append,startBefore,if_neg (by simpa using close),if_neg (by simpa using opening),
      if_neg,ih others]
    simpa using inside

theorem level_plain {text : List Char}
    (plain : ∀ c ∈ text, c ≠ ')' ∧ c ≠ '(' ∧ isBoundary c = false) : Level text := by
  intro depth before
  apply startBefore_passes
  intro c member
  obtain ⟨close,opening,inside⟩ := plain c (List.mem_reverse.mp member)
  exact ⟨close,opening,fun _ => inside⟩

theorem level_parentheses {text : List Char} (flat : ∀ c ∈ text, c ≠ ')' ∧ c ≠ '(') :
    Level ('(' :: (text ++ [')'])) := by
  intro depth before
  have passed : ∀ c ∈ text.reverse, c ≠ ')' ∧ c ≠ '(' ∧ (depth + 1 = 0 → isBoundary c = false) := by
    intro c member
    obtain ⟨close,opening⟩ := flat c (List.mem_reverse.mp member)
    exact ⟨close,opening,nofun⟩
  have inner := startBefore_passes ('(' :: before) passed
  simp only [List.reverse_cons,List.reverse_append,List.reverse_nil,List.nil_append,
    List.cons_append,List.append_assoc]
  rw [startBefore,if_pos (by decide),inner,startBefore,if_neg (by decide),if_pos (by decide),
    Nat.add_sub_cancel]

theorem declarationStart_level {front middle rest : List Char} {last : Char}
    (boundary : isBoundary last = true) (level : Level middle) :
    declarationStart (front ++ last :: (middle ++ rest)) (front.length + 1 + middle.length) =
      front.length + 1 := by
  have taken : (front ++ last :: (middle ++ rest)).take (front.length + 1 + middle.length) =
      front ++ last :: middle := by
    rw [Nat.add_assoc,Nat.add_comm 1,List.take_length_add_append,List.take_succ_cons,
      List.take_left]
  have here := @startBefore_stop last [] front.reverse boundary rfl
  rw [List.length_reverse] at here
  rw [declarationStart,taken,List.reverse_append,List.reverse_cons,List.append_assoc,level]
  exact here

end Lexical

namespace Pattern
variable {kind : Char → Prop}

theorem over_sequence {patterns : List Pattern} (covered : ∀ pattern ∈ patterns, pattern.Over kind) :
    (sequence patterns).Over kind := by
  induction patterns with
  | nil => trivial
  | cons pattern others ih =>
    rw [List.forall_mem_cons] at covered
    cases others with
    | nil => exact covered.1
    | cons => exact ⟨covered.1,ih covered.2⟩

theorem over_literal {text : List Char} (inside : ∀ c ∈ text, kind c) :
    (literal text).Over kind := by
  apply over_sequence
  intro pattern member
  obtain ⟨c,among,rfl⟩ := List.mem_map.mp member
  intro d same
  rw [beq_iff_eq.mp same]
  exact inside c among

theorem run_sequence_append {α : Type} (first second : List Pattern) (cursor : Cursor)
    (go : Cursor → Option α) :
    (sequence (first ++ second)).run cursor go =
      (sequence first).run cursor fun middle => (sequence second).run middle go := by
  induction first generalizing cursor with
  | nil => rfl
  | cons pattern first ih =>
    rw [List.cons_append,run_sequence,run_sequence]
    simp only [ih]

end Pattern

namespace Method
open Pattern

def opening : Pattern :=
  choice [word "public",word "protected",word "private",word "static",one Text.isBlank]

theorem fails_opening {cursor : Cursor}
    (head : ∀ c, cursor.rest.head? = some c → Text.isBlank c = false ∧ c ≠ 'p' ∧ c ≠ 's') :
    opening.Fails cursor := by
  have keyword {c : Char} {text : List Char} (letter : c = 'p' ∨ c = 's') :
      ¬ c :: text <+: cursor.rest := by
    rintro ⟨more,shape⟩
    obtain ⟨_,first,second⟩ := head c (by rw [← shape]; rfl)
    exact letter.elim first second
  refine .either (fails_literal (keyword (.inl rfl))) (.either (fails_literal (keyword (.inl rfl)))
    (.either (fails_literal (keyword (.inl rfl))) (.either (fails_literal (keyword (.inr rfl))) ?_)))
  exact fails_one fun c here => (head c here).1

/-- Characters that a declaration can read before its parameters. -/
def isHeadChar (c : Char) : Bool := isTypeChar c || Text.isBlank c

theorem isHeadChar_of_isTypeChar {c : Char} (typed : isTypeChar c = true) :
    isHeadChar c = true := by
  rw [isHeadChar,typed,Bool.true_or]

theorem isHeadChar_of_isBlank {c : Char} (blank : Text.isBlank c = true) :
    isHeadChar c = true := by
  rw [isHeadChar,blank,Bool.or_true]

theorem isTypeChar_of_isWord {c : Char} (letter : Text.isWord c = true) : isTypeChar c = true := by
  simp [isTypeChar,letter]

theorem isHeadChar_of_isNameChar {c : Char} (letter : Header.isNameChar c = true) :
    isHeadChar c = true := by
  rw [Header.isNameChar,Bool.or_eq_true,beq_iff_eq] at letter
  rcases letter with letter | rfl
  · exact isHeadChar_of_isTypeChar (isTypeChar_of_isWord letter)
  · rfl

/-- Characters of a clause between the parameters and the body. -/
def isClauseChar (c : Char) : Bool := Header.isNameChar c || c == ',' || Text.isBlank c

theorem isClauseChar_of_isNameChar {c : Char} (letter : Header.isNameChar c = true) :
    isClauseChar c = true := by
  rw [isClauseChar,letter,Bool.true_or,Bool.true_or]

theorem isClauseChar_of_isBlank {c : Char} (blank : Text.isBlank c = true) :
    isClauseChar c = true := by
  rw [isClauseChar,blank,Bool.or_true]

theorem isInert_of_isClauseChar {c : Char} (clause : isClauseChar c = true) :
    Lexical.isInert c = true := by
  rw [Lexical.isInert,Bool.and_eq_true,Bool.not_eq_true',bne_iff_ne,Lexical.isQuote,
    Bool.or_eq_false_iff,beq_eq_false_iff_ne,beq_eq_false_iff_ne]
  refine ⟨⟨?_,?_⟩,?_⟩
  all_goals
    rintro rfl
    exact absurd clause (by decide)

/-- The parts of a declaration before its parameters, and those after the parenthesis. -/
def headParts : List Pattern :=
  [opening,longest1 (char ' '),typeToken,upTo 9 typeToken,capture 1 (longest1 (one Text.isWord)),
    spaces]

def bodyParts : List Pattern :=
  [parameters,char ')',spaces,
    optional (seq (word "throws ")
      (longest1 (one fun c => Text.isWord c || c == '.' || c == ',' || Text.isBlank c))),
    char '\x7b']

theorem pattern_eq : pattern = sequence (headParts ++ char '(' :: bodyParts) := rfl

theorem over_headParts : (sequence headParts).Over fun c => isHeadChar c = true := by
  have space (c : Char) (same : (c == ' ') = true) : isHeadChar c = true := by
    rw [beq_iff_eq.mp same]
    rfl
  have gap (c : Char) (same : (c == ' ' || c == '\t') = true) : isHeadChar c = true := by
    rw [Bool.or_eq_true,beq_iff_eq,beq_iff_eq] at same
    rcases same with rfl | rfl <;> rfl
  have letter (c : Char) (letter : Text.isWord c = true) : isHeadChar c = true :=
    isHeadChar_of_isTypeChar (isTypeChar_of_isWord letter)
  have token : typeToken.Over fun c => isHeadChar c = true :=
    ⟨⟨fun _ => isHeadChar_of_isTypeChar,fun _ => isHeadChar_of_isTypeChar⟩,gap,gap⟩
  have open_ : opening.Over fun c => isHeadChar c = true :=
    ⟨over_literal (by decide),over_literal (by decide),over_literal (by decide),
      over_literal (by decide),fun _ => isHeadChar_of_isBlank⟩
  exact ⟨open_,⟨space,space⟩,token,token,⟨letter,letter⟩,space⟩

/-- Where a declaration is found, characters of its head lead to a parenthesis. -/
theorem head_of_match {border : Option Char} {position : Nat} {rest : List Char} {found : Match}
    (matched : pattern.matchAt border position rest = some found) :
    ∃ front more, rest = front ++ '(' :: more ∧ ∀ c ∈ front, isHeadChar c = true := by
  obtain ⟨stop,ran,_⟩ := Option.map_eq_some_iff.mp matched
  rw [pattern_eq,run_sequence_append] at ran
  obtain ⟨next,further,⟨front,inside,starts,_⟩,_⟩ := over_headParts.reads ran
  obtain ⟨c,more,shape,same,_⟩ := one_some (run_sequence _ _ _ _ ▸ further)
  rw [shape,beq_iff_eq.mp same] at starts
  exact ⟨front,more,starts,inside⟩

theorem matchAt_eq_none {border : Option Char} {position : Nat} {rest : List Char}
    (fails : opening.Fails ⟨position,border,rest,[]⟩) :
    pattern.matchAt border position rest = none := by
  have whole : pattern.Fails ⟨position,border,rest,[]⟩ := fails.seq _
  rw [matchAt,whole]
  rfl

/-- No declaration begins at a character that is neither blank nor the first of a modifier. -/
theorem misses_closed {front rest : List Char}
    (closed : ∀ c ∈ front, Text.isBlank c = false ∧ c ≠ 'p' ∧ c ≠ 's') :
    pattern.Misses front rest := by
  induction front with
  | nil => exact misses_nil pattern rest
  | cons c front ih =>
    rw [List.forall_mem_cons] at closed
    refine misses_cons.mpr ⟨fun border position => matchAt_eq_none (fails_opening ?_),
      ih closed.2⟩
    intro d head
    cases head
    exact closed.1

/-- No declaration reads past a character that does not belong to its head. -/
theorem misses_head {front rest : List Char} {stop : Char}
    (inside : ∀ c ∈ front, isHeadChar c = true) (ends : isHeadChar stop = false)
    (apart : stop ≠ '(') : pattern.Misses front (stop :: rest) := by
  intro back within _ border position
  rw [Option.eq_none_iff_forall_ne_some]
  intro found matched
  obtain ⟨start,more,shape,head⟩ := head_of_match matched
  exact apart (Text.leaves_once (fun c member => inside c (within.subset member)) head ends
    (by decide) shape).2

theorem misses_stop {front rest : List Char} {stop : Char}
    (inside : ∀ c ∈ front, isHeadChar c = true) (ends : isHeadChar stop = false)
    (apart : stop ≠ '(') : pattern.Misses (front ++ [stop]) rest := by
  rw [misses_append]
  refine ⟨misses_head inside ends apart,misses_closed ?_⟩
  intro c member
  rw [List.mem_singleton.mp member]
  refine ⟨?_,?_,?_⟩
  · rw [← Bool.not_eq_true]
    intro blank
    rw [isHeadChar_of_isBlank blank] at ends
    cases ends
  · rintro rfl
    exact absurd ends (by decide)
  · rintro rfl
    exact absurd ends (by decide)

/-- Without a parenthesis there is no declaration. -/
theorem misses_unopened {front rest : List Char} (unopened : '(' ∉ front ++ rest) :
    pattern.Misses front rest := by
  intro back within _ border position
  rw [Option.eq_none_iff_forall_ne_some]
  intro found matched
  obtain ⟨start,more,shape,_⟩ := head_of_match matched
  have member : '(' ∈ back ++ rest := by simp [shape]
  have inside : back ++ rest <:+ front ++ rest := by
    obtain ⟨before,rfl⟩ := within
    exact ⟨before,by simp⟩
  exact unopened (inside.subset member)

/-- No declaration begins in annotations between blanks. -/
theorem misses_outlined {gap : List Char} (blank : ∀ c ∈ gap, Text.isBlank c = true)
    {marks : List Mark} (calm : ∀ mark ∈ marks, ∀ c ∈ mark.name, c ≠ 'p' ∧ c ≠ 's')
    (rest : List Char) : pattern.Misses (AnnotationUse.outlined gap marks) rest := by
  induction marks with
  | nil => exact misses_nil pattern rest
  | cons mark marks ih =>
    rw [List.forall_mem_cons] at calm
    have name : ∀ c ∈ mark.name, Text.isBlank c = false ∧ c ≠ 'p' ∧ c ≠ 's' := fun c member =>
      ⟨isBlank_of_isNameChar (mark.letters c member),calm.1 c member⟩
    have brackets (more : List Char) : pattern.Misses (Mark.brackets (mark.quoted.map fun inside =>
        List.replicate inside.length ' ')) more := by
      cases mark.quoted with
      | none => exact misses_nil pattern more
      | some inside =>
        have quotes : pattern.Misses (List.replicate inside.length ' ' ++ ['"']) (')' :: more) :=
          misses_stop (fun c member => by rw [List.eq_of_mem_replicate member]; rfl) rfl (by decide)
        have whole := misses_append.mpr ⟨@misses_closed ['(','"'] _ (by decide),
          misses_append.mpr ⟨quotes,@misses_closed [')'] _ (by decide)⟩⟩
        simpa [Mark.brackets] using whole
    have shape : AnnotationUse.outlined gap (mark :: marks) = (gap ++ ['@']) ++ (mark.name ++
        (Mark.brackets (mark.quoted.map fun inside => List.replicate inside.length ' ') ++
          AnnotationUse.outlined gap marks)) := by
      simp [AnnotationUse.outlined,Mark.outline]
    rw [shape]
    refine misses_append.mpr ⟨misses_stop (fun c member => isHeadChar_of_isBlank (blank c member))
      rfl (by decide),misses_append.mpr ⟨misses_closed name,misses_append.mpr ⟨brackets _,ih calm.2⟩⟩⟩

end Method

/-- The head of a method as it is written: modifiers and types, then the name. -/
structure Declaration where
  tokens : List (List Char)
  name : List Char
  typed : tokens ≠ []
  few : tokens.length ≤ 10
  words : ∀ token ∈ tokens, token ≠ [] ∧ ∀ c ∈ token, Method.isTypeChar c = true
  declares : tokens.getLast? ≠ some "new".toList
  named : name ≠ []
  letters : ∀ c ∈ name, Text.isWord c = true
  free : String.ofList name ∉ Method.controlNames

namespace Declaration
open Pattern

/-- Tokens with a space behind each. -/
def spaced (tokens : List (List Char)) : List Char := tokens.flatMap fun token => token ++ [' ']

def indent : List Char := [' ',' ',' ',' ']

/-- What stands before the name, from the end of the line before. -/
def head (declaration : Declaration) : List Char :=
  '\n' :: (indent ++ spaced declaration.tokens)

/-- The line of the declaration up to the body. -/
def text (declaration : Declaration) : List Char :=
  declaration.head ++ (declaration.name ++ ['(',')',' ','\x7b'])

section Takes
variable {cursor : Cursor} {token name more : List Char}

theorem takes_token (starts : cursor.rest = token ++ ' ' :: more) (nonempty : token ≠ [])
    (typed : ∀ c ∈ token, Method.isTypeChar c = true)
    (apart : ∀ c, more.head? = some c → Text.isBlank c = false) :
    Method.typeToken.Takes cursor (cursor.past (token ++ [' '])) := by
  have rest := Cursor.rest_past token starts
  rw [← Cursor.past_past]
  refine .seq (takes_longest1_one starts nonempty typed ?_)
    (@takes_longest1_one _ _ [' '] more rest (by decide) (by decide) ?_)
  · rintro c same
    cases same
    rfl
  · intro c head
    have solid := apart c head
    rw [Bool.or_eq_false_iff,beq_eq_false_iff_ne,beq_eq_false_iff_ne]
    constructor
    all_goals
      rintro rfl
      cases solid

/-- A name in front of a parenthesis is no token, however few of its characters are read. -/
theorem fails_token (starts : cursor.rest = name ++ '(' :: more)
    (letters : ∀ c ∈ name, Text.isWord c = true) : Method.typeToken.Fails cursor := by
  intro α go
  rw [Option.eq_none_iff_forall_ne_some]
  intro result ran
  have covered : (longest1 (one Method.isTypeChar)).Over fun c => Method.isTypeChar c = true :=
    ⟨fun _ => id,fun _ => id⟩
  obtain ⟨next,further,⟨front,inside,read,_⟩,_⟩ := covered.reads ran
  obtain ⟨c,rest,shape,gap,_⟩ := one_some further
  rw [Bool.or_eq_true,beq_iff_eq,beq_iff_eq] at gap
  have space : Method.isTypeChar c = false := by rcases gap with rfl | rfl <;> decide
  rw [starts,shape] at read
  have same := (Text.leaves_once
    (fun c member => Method.isTypeChar_of_isWord (letters c member)) inside (by decide) space read).2
  rw [← same] at gap
  exact absurd gap (by decide)

theorem solid_of_isTypeChar {c : Char} (typed : Method.isTypeChar c = true) :
    Text.isBlank c = false := by
  simp only [Method.isTypeChar,Bool.or_eq_true,beq_iff_eq] at typed
  rcases typed with ((((((letter | rfl) | rfl) | rfl) | rfl) | rfl) | rfl) | rfl
  · exact Text.isBlank_of_isWord letter
  all_goals rfl

theorem solid_head {tokens : List (List Char)} {c : Char}
    (words : ∀ token ∈ tokens, token ≠ [] ∧ ∀ c ∈ token, Method.isTypeChar c = true)
    (named : name ≠ []) (letters : ∀ c ∈ name, Text.isWord c = true)
    (head : (spaced tokens ++ (name ++ more)).head? = some c) : Text.isBlank c = false := by
  cases tokens with
  | nil =>
    obtain ⟨d,name,rfl⟩ := List.exists_cons_of_ne_nil named
    cases head
    exact Text.isBlank_of_isWord (letters c List.mem_cons_self)
  | cons token tokens =>
    rw [List.forall_mem_cons] at words
    obtain ⟨⟨nonempty,typed⟩,_⟩ := words
    obtain ⟨d,token,rfl⟩ := List.exists_cons_of_ne_nil nonempty
    cases head
    exact solid_of_isTypeChar (typed c List.mem_cons_self)

theorem takes_tokens {tokens : List (List Char)} {limit : Nat} (few : tokens.length ≤ limit)
    (words : ∀ token ∈ tokens, token ≠ [] ∧ ∀ c ∈ token, Method.isTypeChar c = true)
    (named : name ≠ []) (letters : ∀ c ∈ name, Text.isWord c = true)
    (starts : cursor.rest = spaced tokens ++ (name ++ '(' :: more)) :
    (upTo limit Method.typeToken).Takes cursor (cursor.past (spaced tokens)) := by
  induction tokens generalizing cursor limit with
  | nil =>
    rw [spaced,List.flatMap_nil,Cursor.past_nil]
    exact takes_upTo_stop (fails_token starts letters) limit
  | cons token tokens ih =>
    rw [List.forall_mem_cons] at words
    have shape : cursor.rest = (token ++ [' ']) ++ (spaced tokens ++ (name ++ '(' :: more)) := by
      rw [starts,spaced,List.flatMap_cons,List.append_assoc]
      rfl
    have first := takes_token (by rw [shape,List.append_assoc]; rfl) words.1.1 words.1.2
      (fun _ => solid_head words.2 named letters)
    cases limit with
    | zero => simp at few
    | succ limit =>
      have others := ih (Nat.le_of_succ_le_succ few) words.2 (Cursor.rest_past _ shape)
      rw [Cursor.past_past] at others
      exact takes_upTo_step first others

theorem takes_parameters {parameters : List Char} (starts : cursor.rest = parameters ++ ')' :: more)
    (flat : ∀ c ∈ parameters, c ≠ '(' ∧ c ≠ ')') :
    Method.parameters.Takes cursor (cursor.past parameters) := by
  refine takes_longest_text starts ?_ (.either (fails_one ?_) (.seq (fails_one ?_) _))
  · rintro before c after rfl
    rw [List.append_assoc] at starts
    have plain : (c != '(' && c != ')') = true := by simpa using flat c (by simp)
    exact .left (takes_one (Cursor.rest_past before starts) plain) _
  all_goals
    intro c head
    rw [Cursor.rest_past _ starts] at head
    cases head
    rfl

/-- The clause that names what is thrown, with a space in front of it. -/
def throwing : List (List Char) → List Char
  | [] => []
  | names => " throws ".toList ++ [',',' '].intercalate names

theorem forall_mem_names {names : List (List Char)}
    (dotted : ∀ name ∈ names, ∀ c ∈ name, Header.isNameChar c = true) :
    ∀ c ∈ [',',' '].intercalate names, Method.isClauseChar c = true :=
  Text.forall_mem_intercalate (by decide) fun name among c inside =>
    Method.isClauseChar_of_isNameChar (dotted name among c inside)

theorem clauseChar_of_mem_throwing {names : List (List Char)} {c : Char}
    (dotted : ∀ name ∈ names, ∀ c ∈ name, Header.isNameChar c = true)
    (member : c ∈ throwing names) : Method.isClauseChar c = true := by
  cases names with
  | nil => cases member
  | cons name names =>
    rcases List.mem_append.mp member with word | listed
    · exact (by decide : ∀ c ∈ " throws ".toList, Method.isClauseChar c = true) c word
    · exact forall_mem_names dotted c listed

theorem takes_clause {names : List (List Char)}
    (dotted : ∀ name ∈ names, ∀ c ∈ name, Header.isNameChar c = true)
    (starts : cursor.rest = (throwing names ++ [' ','\x7b']) ++ more) :
    (sequence (Method.bodyParts.drop 2)).Takes cursor
      (cursor.past (throwing names ++ [' ','\x7b'])) := by
  have blank {after : List Char} (here : cursor.rest = [' '] ++ after) (solid : after.head? ≠ some ' ') :
      Method.spaces.Takes cursor (cursor.past [' ']) := by
    refine takes_longest_one here (by decide) fun c head => ?_
    rw [beq_eq_false_iff_ne]
    rintro rfl
    exact solid head
  cases names with
  | nil =>
    have atBrace := Cursor.rest_past [' '] starts
    have bare : ¬"throws ".toList <+: (cursor.past [' ']).rest := by
      rw [atBrace]
      rintro ⟨after,same⟩
      cases same
    have whole : (sequence (Method.bodyParts.drop 2)).Takes cursor ((cursor.past [' ']).past ['\x7b']) :=
      (blank starts (by simp)).seq
        ((takes_optional (.seq (fails_literal bare) _)).seq (takes_one atBrace rfl))
    rwa [Cursor.past_past] at whole
  | cons name names =>
    let listed := [',',' '].intercalate (name :: names) ++ [' ']
    have here : cursor.rest = [' '] ++ ("throws ".toList ++ (listed ++ '\x7b' :: more)) := by
      rw [starts]
      simp [throwing,listed]
    have atWord := Cursor.rest_past [' '] here
    have atNames := Cursor.rest_past "throws ".toList atWord
    have atBrace := Cursor.rest_past listed atNames
    have inside : ∀ c ∈ listed, Method.isClauseChar c = true := by
      intro c member
      rcases List.mem_append.mp member with inside | space
      · exact forall_mem_names dotted c inside
      · rw [List.mem_singleton.mp space]
        rfl
    have names := takes_longest1_one atNames (by simp [listed]) inside
      (by rintro c same; cases same; rfl)
    have whole : (sequence (Method.bodyParts.drop 2)).Takes cursor
        ((((cursor.past [' ']).past "throws ".toList).past listed).past ['\x7b']) :=
      (blank here (by simp)).seq
        ((Takes.left ((takes_literal atWord).seq names) _).seq (takes_one atBrace rfl))
    rw [Cursor.past_past,Cursor.past_past,Cursor.past_past] at whole
    simpa [throwing,listed] using whole

/-- From the opening parenthesis to the brace. -/
def body (parameters : List Char) (names : List (List Char)) : List Char :=
  '(' :: (parameters ++ ')' :: (throwing names ++ [' ','\x7b']))

theorem takes_body {parameters : List Char} {names : List (List Char)}
    (flat : ∀ c ∈ parameters, c ≠ '(' ∧ c ≠ ')')
    (dotted : ∀ name ∈ names, ∀ c ∈ name, Header.isNameChar c = true)
    (starts : cursor.rest = body parameters names ++ more) :
    (sequence (Method.spaces :: char '(' :: Method.bodyParts)).Takes cursor
      (cursor.past (body parameters names)) := by
  have here : cursor.rest = ['('] ++ (parameters ++ ([')'] ++
      ((throwing names ++ [' ','\x7b']) ++ more))) := by
    rw [starts,body]
    simp
  have inner := Cursor.rest_past ['('] here
  have atClose := Cursor.rest_past parameters inner
  have behind := Cursor.rest_past [')'] atClose
  have unspaced : Method.spaces.Takes cursor cursor :=
    takes_longest_stop (fails_one fun c head => by rw [here] at head; cases head; rfl)
  have whole : (sequence (Method.spaces :: char '(' :: Method.bodyParts)).Takes cursor
      ((((cursor.past ['(']).past parameters).past [')']).past (throwing names ++ [' ','\x7b'])) :=
    unspaced.seq ((takes_one here rfl).seq ((takes_parameters inner flat).seq
      ((takes_one atClose rfl).seq (takes_clause dotted behind))))
  rw [Cursor.past_past,Cursor.past_past,Cursor.past_past] at whole
  simpa [body] using whole

end Takes

section Match
variable (declaration : Declaration)

/-- The cursor behind the name of the declaration. -/
def called (start : Cursor) : Cursor :=
  let head := start.past declaration.head
  (head.past declaration.name).hold 1 head.position declaration.name

/-- A declaration is taken with its parameters and its clause. -/
theorem takes_text {start : Cursor} {parameters : List Char} {names : List (List Char)}
    {rest : List Char} (flat : ∀ c ∈ parameters, c ≠ '(' ∧ c ≠ ')')
    (dotted : ∀ name ∈ names, ∀ c ∈ name, Header.isNameChar c = true)
    (starts : start.rest =
      declaration.head ++ (declaration.name ++ (body parameters names ++ rest))) :
    Method.pattern.Takes start ((declaration.called start).past (body parameters names)) := by
  obtain ⟨token,tokens,shape⟩ := List.exists_cons_of_ne_nil declaration.typed
  have words := declaration.words
  have few := declaration.few
  rw [shape,List.forall_mem_cons] at words
  rw [shape,List.length_cons] at few
  let behind := parameters ++ ')' :: (throwing names ++ ' ' :: '\x7b' :: rest)
  have here : start.rest = '\n' :: (indent ++ ((token ++ [' ']) ++ (spaced tokens ++
      (declaration.name ++ '(' :: behind)))) := by
    rw [starts,head,shape]
    simp [spaced,body,behind]
  have solid {c : Char} := @solid_head declaration.name ('(' :: behind) tokens c words.2
    declaration.named declaration.letters
  have opening : Method.opening.Takes start (start.past ['\n']) := by
    have apart {c : Char} {keyword : List Char} (other : c ≠ '\n') :
        ¬ c :: keyword <+: start.rest := by
      rw [here,List.cons_prefix_cons]
      exact fun same => other same.1
    exact .right (fails_literal (apart (by decide))) (.right (fails_literal (apart (by decide)))
      (.right (fails_literal (apart (by decide))) (.right (fails_literal (apart (by decide)))
        (takes_one here rfl))))
  have atIndent := Cursor.rest_past ['\n'] here
  have indented : (longest1 (char ' ')).Takes (start.past ['\n'])
      ((start.past ['\n']).past indent) := by
    refine takes_longest1_one atIndent (by decide) (by decide) ?_
    intro c head
    obtain ⟨d,token,rfl⟩ := List.exists_cons_of_ne_nil words.1.1
    cases head
    rw [beq_eq_false_iff_ne]
    rintro rfl
    exact absurd (solid_of_isTypeChar (words.1.2 _ List.mem_cons_self)) (by decide)
  have atToken := Cursor.rest_past indent atIndent
  have first := takes_token (by rw [atToken,List.append_assoc]; rfl) words.1.1 words.1.2
    (fun c head => solid head)
  have atTokens := Cursor.rest_past _ atToken
  have others := takes_tokens (Nat.le_of_succ_le_succ few) words.2 declaration.named
    declaration.letters atTokens
  have arrives : (((start.past ['\n']).past indent).past (token ++ [' '])).past (spaced tokens) =
      start.past declaration.head := by
    rw [Cursor.past_past,Cursor.past_past,Cursor.past_past,head,shape]
    simp [spaced]
  have atName := Cursor.rest_past _ atTokens
  rw [arrives] at others atName
  have name := (takes_longest1_one atName declaration.named declaration.letters
    (by rintro c same; cases same; rfl)).capture atName 1
  have atBody : (declaration.called start).rest = body parameters names ++ rest := by
    have here := Cursor.rest_past declaration.name atName
    simpa [called,Cursor.hold,body,behind] using here
  exact opening.seq (indented.seq (first.seq (others.seq (name.seq
    (takes_body flat dotted atBody)))))

/-- The match of the declaration where it stands. -/
def found (position : Nat) : Match :=
  let start := position + declaration.head.length
  ⟨position,position + declaration.text.length,declaration.text,
    [(1,⟨start,start + declaration.name.length,declaration.name⟩)]⟩

theorem matchAt_text (border : Option Char) (position : Nat) (rest : List Char) :
    Method.pattern.matchAt border position (declaration.text ++ rest) =
      some (declaration.found position) := by
  have stop : position + declaration.head.length + declaration.name.length + 4 =
      position + declaration.text.length := by
    simp [text]
    omega
  have starts : declaration.text ++ rest =
      declaration.head ++ (declaration.name ++ (body [] [] ++ rest)) := by
    simp [text,body,throwing]
  rw [matchAt_of_takes (declaration.takes_text (List.forall_mem_nil _) (List.forall_mem_nil _) starts)]
  simp [called,body,throwing,found,Cursor.past,Cursor.hold,stop]

end Match

end Declaration

end JavaAtlas
