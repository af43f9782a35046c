import JavaAtlas.Proofs.Divisions

/-! Parts of a text and the cuts between them. A text is cut at a separator where no bracket is open
and no literal goes on, and nowhere else. At a cut the reader stands as it does before a text, so
that a part is read by itself as it was read in its place. -/
namespace JavaAtlas.Lexical

/-- The open brackets behind a character, the innermost first. A closing bracket that does not
answer the innermost one changes nothing. -/
def nest (stack : List Char) (c : Char) : List Char :=
  if isOpening c then c :: stack
  else
    match opening? c with
    | some opening => if stack.head? = some opening then stack.tail else stack
    | none => stack

def Token.nest (stack : List Char) : Token → List Char
  | .code c => Lexical.nest stack c
  | _ => stack

/-- The brackets that are open behind a text, the innermost first. -/
def openBrackets (text : List Char) : List Char := (literalTokens text).foldl Token.nest []

/-- The place belongs to a literal of the text. -/
def Quoted (text : List Char) (i : Nat) : Prop := ∃ found, Quotes text found ∧ Covers found i

/-- At the place stands one of the separators by which the parts are joined. -/
def IsCut (separator : Char) (parts : List (List Char)) (i : Nat) : Prop :=
  ∃ front back, front ≠ [] ∧ back ≠ [] ∧ parts = front ++ back ∧
    i = ([separator].intercalate front).length

section Cuts
variable {separator : Char} {first : List Char} {parts : List (List Char)} {i : Nat}

theorem not_isCut_singleton : ¬IsCut separator [first] i := by
  rintro ⟨front,back,given,more,shape,_⟩
  obtain ⟨_,front,rfl⟩ := List.exists_cons_of_ne_nil given
  have rest := (List.cons.inj shape).2
  exact more (List.append_eq_nil_iff.mp rest.symm).2

theorem isCut_cons (given : parts ≠ []) : IsCut separator (first :: parts) i ↔
    i = first.length ∨ ∃ j, i = first.length + 1 + j ∧ IsCut separator parts j := by
  constructor
  · rintro ⟨front,back,filled,more,shape,rfl⟩
    obtain ⟨head,front,rfl⟩ := List.exists_cons_of_ne_nil filled
    obtain ⟨rfl,rfl⟩ := List.cons.inj shape
    by_cases single : front = []
    · subst single
      exact .inl (by simp)
    · refine .inr ⟨([separator].intercalate front).length,?_,front,back,single,more,rfl,rfl⟩
      rw [List.intercalate_cons_of_ne_nil single]
      simp only [List.length_append,List.length_singleton]
  · rintro (rfl | ⟨j,rfl,front,back,filled,more,rfl,rfl⟩)
    · exact ⟨[first],parts,List.cons_ne_nil _ _,given,rfl,by simp⟩
    · refine ⟨first :: front,back,List.cons_ne_nil _ _,more,rfl,?_⟩
      rw [List.intercalate_cons_of_ne_nil filled]
      simp only [List.length_append,List.length_singleton]

theorem isCut_append (lead : List Char) : IsCut separator ((lead ++ first) :: parts) i ↔
    ∃ j, i = lead.length + j ∧ IsCut separator (first :: parts) j := by
  by_cases given : parts = []
  · subst given
    exact iff_of_false not_isCut_singleton fun ⟨_,_,cut⟩ => not_isCut_singleton cut
  · simp only [isCut_cons given,List.length_append]
    constructor
    · rintro (rfl | ⟨j,rfl,cut⟩)
      · exact ⟨_,rfl,.inl rfl⟩
      · exact ⟨_,by omega,.inr ⟨j,rfl,cut⟩⟩
    · rintro ⟨_,rfl,rfl | ⟨j,rfl,cut⟩⟩
      · exact .inl rfl
      · exact .inr ⟨j,by omega,cut⟩

end Cuts

section Pieces
variable {separator : Char} {stack part : List Char} {parts : List (List Char)} {token : Token}
  {found : List Token} {i : Nat}

def spelled (found : List Token) : List Char := found.flatMap Token.text

theorem length_spelled_cons (token : Token) (found : List Token) :
    (spelled (token :: found)).length = token.text.length + (spelled found).length := by
  rw [spelled,List.flatMap_cons,List.length_append,spelled]

/-- Whether the text is cut at the token. -/
def cutsAt (separator : Char) (stack : List Char) : Token → Bool
  | .code c => c == separator && stack.isEmpty && !isOpening c
  | _ => false

/-- The tokens of each part, with the brackets that are open in front of the first one. -/
def pieces (separator : Char) : List Char → List Token → List (List Token)
  | _, [] => [[]]
  | stack, token :: rest =>
    if cutsAt separator stack token then [] :: pieces separator [] rest
    else (pieces separator (token.nest stack) rest).modifyHead (token :: ·)

theorem cutsAt_iff : cutsAt separator stack token = true ↔
    token = .code separator ∧ stack = [] ∧ isOpening separator = false := by
  cases token with
  | code c =>
    simp only [cutsAt,Bool.and_eq_true,beq_iff_eq,List.isEmpty_iff,Bool.not_eq_true',
      Token.code.injEq]
    constructor
    · rintro ⟨⟨rfl,empty⟩,plain⟩
      exact ⟨rfl,empty,plain⟩
    · rintro ⟨rfl,empty,plain⟩
      exact ⟨⟨rfl,empty⟩,plain⟩
  | literal text => simp [cutsAt]
  | comment text => simp [cutsAt]

/-- Behind a cut no bracket is open. -/
theorem nest_of_cutsAt (cut : cutsAt separator stack token = true) : token.nest stack = [] := by
  obtain ⟨rfl,rfl,plain⟩ := cutsAt_iff.mp cut
  rw [Token.nest,nest,plain,if_neg Bool.false_ne_true]
  cases opening? separator <;> rfl

theorem pieces_cut (cut : cutsAt separator stack token = true) (rest : List Token) :
    pieces separator stack (token :: rest) = [] :: pieces separator [] rest := by
  rw [pieces,if_pos cut]

theorem pieces_step (further : cutsAt separator stack token = false) (rest : List Token) :
    pieces separator stack (token :: rest) =
      (pieces separator (token.nest stack) rest).modifyHead (token :: ·) := by
  rw [pieces,further,if_neg Bool.false_ne_true]

theorem exists_pieces (separator : Char) (stack : List Char) (found : List Token) :
    ∃ first others, pieces separator stack found = first :: others := by
  induction found generalizing stack with
  | nil => exact ⟨[],[],rfl⟩
  | cons token found ih =>
    cases cut : cutsAt separator stack token with
    | true => exact ⟨_,_,pieces_cut cut found⟩
    | false =>
      obtain ⟨first,others,shape⟩ := ih (token.nest stack)
      exact ⟨token :: first,others,by rw [pieces_step cut,shape,List.modifyHead_cons]⟩

theorem Division.step_eq (separator : Char) (token : Token) :
    step separator ⟨stack,part,parts⟩ token =
      if cutsAt separator stack token then ⟨[],[],part.reverse :: parts⟩
      else ⟨token.nest stack,token.text.reverse ++ part,parts⟩ := by
  cases token with
  | literal text => rfl
  | comment text => rfl
  | code c =>
    cases opens : isOpening c with
    | true => simp [step,cutsAt,Token.nest,nest,opens,Token.text]
    | false =>
      cases answers : opening? c with
      | none =>
        cases stack <;> simp [step,cutsAt,Token.nest,nest,opens,answers,Token.text]
      | some opening =>
        cases stack with
        | nil => simp [step,cutsAt,Token.nest,nest,opens,answers,Token.text]
        | cons top stack =>
          by_cases same : top = opening
          · simp [step,cutsAt,Token.nest,nest,opens,answers,same,Token.text]
          · simp [step,cutsAt,Token.nest,nest,opens,answers,same,Token.text]

theorem finish_foldl (separator : Char) (stack part : List Char) (parts : List (List Char))
    (found : List Token) :
    (found.foldl (Division.step separator) ⟨stack,part,parts⟩).finish =
      parts.reverse ++
        ((pieces separator stack found).map spelled).modifyHead (part.reverse ++ ·) := by
  induction found generalizing stack part parts with
  | nil => simp [Division.finish,pieces,spelled]
  | cons token found ih =>
    rw [List.foldl_cons,Division.step_eq]
    cases cut : cutsAt separator stack token with
    | true =>
      obtain ⟨first,others,shape⟩ := exists_pieces separator [] found
      rw [if_pos rfl,ih,pieces_cut cut,shape]
      simp [spelled]
    | false =>
      obtain ⟨first,others,shape⟩ := exists_pieces separator (token.nest stack) found
      rw [if_neg Bool.false_ne_true,ih,pieces_step cut,shape]
      simp [spelled]

theorem splitTopLevel_pieces (separator : Char) (text : List Char) :
    splitTopLevel separator text = (pieces separator [] (literalTokens text)).map spelled := by
  obtain ⟨first,others,shape⟩ := exists_pieces separator [] (literalTokens text)
  rw [splitTopLevel,finish_foldl,shape]
  rfl

theorem intercalate_pieces (separator : Char) (stack : List Char) (found : List Token) :
    [separator].intercalate ((pieces separator stack found).map spelled) = spelled found := by
  induction found generalizing stack with
  | nil => rfl
  | cons token found ih =>
    cases cut : cutsAt separator stack token with
    | true =>
      obtain ⟨first,others,shape⟩ := exists_pieces separator [] found
      have rest := ih []
      obtain ⟨rfl,_⟩ := cutsAt_iff.mp cut
      rw [pieces_cut cut,shape,List.map_cons,List.map_cons,List.intercalate_cons_cons,
        ← List.map_cons,← shape,rest]
      rfl
    | false =>
      have rest := ih (token.nest stack)
      obtain ⟨first,others,shape⟩ := exists_pieces separator (token.nest stack) found
      rw [shape,List.map_cons,Text.intercalate_cons] at rest
      rw [pieces_step cut,shape,List.modifyHead_cons,List.map_cons,Text.intercalate_cons]
      simp only [spelled,List.flatMap_cons,List.append_assoc] at rest ⊢
      rw [rest]

/-- The first part goes on with the brackets that are open in front of it, and all others begin
with none. Within each there is no cut. -/
theorem pieces_uncut {first : List Token} {others : List (List Token)}
    (shape : pieces separator stack found = first :: others) :
    pieces separator stack first = [first] ∧
      ∀ piece ∈ others, pieces separator [] piece = [piece] := by
  induction found generalizing stack first others with
  | nil =>
    cases shape
    exact ⟨rfl,nofun⟩
  | cons token found ih =>
    cases cut : cutsAt separator stack token with
    | true =>
      rw [pieces_cut cut] at shape
      cases shape
      obtain ⟨next,later,rest⟩ := exists_pieces separator [] found
      rw [rest,List.forall_mem_cons]
      exact ⟨rfl,ih rest⟩
    | false =>
      obtain ⟨next,later,rest⟩ := exists_pieces separator (token.nest stack) found
      rw [pieces_step cut,rest,List.modifyHead_cons] at shape
      cases shape
      obtain ⟨here,below⟩ := ih rest
      exact ⟨by rw [pieces_step cut,here,List.modifyHead_cons],below⟩

theorem stretches_of_pieces {first : List Token} {others : List (List Token)}
    (shape : pieces separator stack found = first :: others) :
    first <+: found ∧ ∀ piece ∈ others, piece <:+: found := by
  induction found generalizing stack first others with
  | nil =>
    cases shape
    exact ⟨List.prefix_rfl,nofun⟩
  | cons token found ih =>
    cases cut : cutsAt separator stack token with
    | true =>
      rw [pieces_cut cut] at shape
      cases shape
      obtain ⟨next,later,rest⟩ := exists_pieces separator [] found
      rw [rest,List.forall_mem_cons]
      obtain ⟨here,below⟩ := ih rest
      exact ⟨List.nil_prefix,List.infix_cons here.isInfix,
        fun piece member => List.infix_cons (below piece member)⟩
    | false =>
      obtain ⟨next,later,rest⟩ := exists_pieces separator (token.nest stack) found
      rw [pieces_step cut,rest,List.modifyHead_cons] at shape
      cases shape
      obtain ⟨here,below⟩ := ih rest
      exact ⟨(List.prefix_cons_inj token).mpr here,
        fun piece member => List.infix_cons (below piece member)⟩

/-- The cuts by the tokens in front of them. -/
theorem isCut_pieces : IsCut separator ((pieces separator stack found).map spelled) i ↔
    ∃ front back, found = front ++ .code separator :: back ∧ i = (spelled front).length ∧
      front.foldl Token.nest stack = [] ∧ isOpening separator = false := by
  induction found generalizing stack i with
  | nil =>
    refine iff_of_false not_isCut_singleton ?_
    rintro ⟨front,back,shape,_⟩
    exact absurd shape.symm (List.append_ne_nil_of_right_ne_nil _ (List.cons_ne_nil _ _))
  | cons token found ih =>
    cases cut : cutsAt separator stack token with
    | true =>
      obtain ⟨first,others,shape⟩ := exists_pieces separator [] found
      have given : (pieces separator [] found).map spelled ≠ [] := by simp [shape]
      obtain ⟨rfl,rfl,plain⟩ := cutsAt_iff.mp cut
      rw [pieces_cut cut,List.map_cons,isCut_cons given]
      constructor
      · rintro (rfl | ⟨j,rfl,later⟩)
        · exact ⟨[],found,rfl,rfl,rfl,plain⟩
        · obtain ⟨front,back,rfl,rfl,closed,_⟩ := ih.mp later
          refine ⟨.code separator :: front,back,rfl,?_,?_,plain⟩
          · rw [length_spelled_cons]
            simp [Token.text,spelled]
          · rw [List.foldl_cons,nest_of_cutsAt cut,closed]
      · rintro ⟨front,back,same,rfl,closed,_⟩
        cases front with
        | nil => exact .inl rfl
        | cons token front =>
          obtain ⟨rfl,rfl⟩ := List.cons.inj same
          rw [List.foldl_cons,nest_of_cutsAt cut] at closed
          refine .inr ⟨_,?_,ih.mpr ⟨front,back,rfl,rfl,closed,plain⟩⟩
          rw [length_spelled_cons]
          simp [Token.text,spelled]
    | false =>
      obtain ⟨first,others,shape⟩ := exists_pieces separator (token.nest stack) found
      have whole : spelled (token :: first) = token.text ++ spelled first := rfl
      have below (j : Nat) := @ih (token.nest stack) j
      rw [shape,List.map_cons] at below
      rw [pieces_step cut,shape,List.modifyHead_cons,List.map_cons,whole,isCut_append]
      simp only [below]
      constructor
      · rintro ⟨_,rfl,front,back,rfl,rfl,closed,plain⟩
        exact ⟨token :: front,back,rfl,(length_spelled_cons token front).symm,closed,plain⟩
      · rintro ⟨front,back,same,rfl,closed,plain⟩
        cases front with
        | nil =>
          have here : stack = [] := closed
          rw [cutsAt_iff.mpr ⟨(List.cons.inj same).1,here,plain⟩] at cut
          cases cut
        | cons token front =>
          obtain ⟨rfl,rfl⟩ := List.cons.inj same
          exact ⟨_,length_spelled_cons token front,front,back,rfl,rfl,closed,plain⟩

end Pieces

section Stretches
variable {text rest more : List Char} {front back piece found : List Token}

/-- A literal ends where it does if the text is cut off somewhere behind it. -/
theorem IsLiteral.cut_off (whole : IsLiteral text (rest ++ more)) : IsLiteral text rest := by
  by_cases ends : rest ++ more = []
  · rw [ends] at whole
    rwa [(List.append_eq_nil_iff.mp ends).1]
  · apply whole.in_front rest ends
    intro head
    rw [List.head?_append,head]
    rfl

theorem Quotes.before (divided : Quotes text (front ++ back)) : Quotes (spelled front) front := by
  induction front generalizing text with
  | nil => exact .done
  | cons token front ih =>
    cases divided with
    | literal whole others =>
      have shape := others.text_eq
      change (front ++ back).flatMap Token.text = _ at shape
      rw [List.flatMap_append] at shape
      rw [← shape] at whole
      exact .literal whole.cut_off (ih others)
    | code bare others => exact .code bare (ih others)

theorem Quotes.behind (divided : Quotes text (front ++ back)) : Quotes (spelled back) back := by
  induction front generalizing text with
  | nil =>
    rw [← divided.text_eq] at divided
    exact divided
  | cons token front ih =>
    cases divided with
    | literal _ others => exact ih others
    | code _ others => exact ih others

theorem Quotes.no_comment (divided : Quotes text found) (comment : List Char) :
    .comment comment ∉ found := by
  induction divided with
  | done => exact List.not_mem_nil
  | literal _ _ ih => simpa using ih
  | code _ _ ih => simpa using ih

/-- A stretch of the tokens of a text is the division of its own text. -/
theorem literalTokens_stretch (stretch : piece <:+: literalTokens text) :
    literalTokens (spelled piece) = piece := by
  obtain ⟨front,back,shape⟩ := stretch
  have divided := quotes_literalTokens text
  rw [← shape] at divided
  exact divided.before.behind.eq_literalTokens.symm

theorem placed_append (start : Nat) (front back : List Token) :
    placed start (front ++ back) =
      placed start front ++ placed (start + (spelled front).length) back := by
  induction front generalizing start with
  | nil => rfl
  | cons token front ih =>
    rw [List.cons_append,placed,placed,ih,List.cons_append]
    simp only [spelled,List.flatMap_cons,List.length_append,Nat.add_assoc]

theorem exists_front {start place : Nat} {token : Token}
    (member : (place,token) ∈ placed start found) :
    ∃ front back, found = front ++ token :: back ∧ place = start + (spelled front).length := by
  induction found generalizing start with
  | nil => cases member
  | cons first found ih =>
    rcases List.mem_cons.mp member with here | later
    · cases here
      exact ⟨[],found,rfl,rfl⟩
    · obtain ⟨front,back,rfl,rfl⟩ := ih later
      exact ⟨first :: front,back,rfl,by simp [spelled,Nat.add_assoc]⟩

end Stretches

section Places
variable {text : List Char} {separator : Char} {i : Nat}

theorem quoted_iff : Quoted text i ↔ Covers (literalTokens text) i := by
  constructor
  · rintro ⟨found,divided,inside⟩
    exact divided.eq_literalTokens ▸ inside
  · intro inside
    exact ⟨_,quotes_literalTokens text,inside⟩

/-- A character outside of the literals is a token of its own, in front of which the text is divided
as it is without what follows. -/
theorem stands_iff : (text[i]? = some separator ∧ ¬Quoted text i) ↔
    ∃ front back, literalTokens text = front ++ .code separator :: back ∧
      i = (spelled front).length := by
  have divided := quotes_literalTokens text
  have whole := divided.text_eq
  rw [quoted_iff]
  constructor
  · rintro ⟨shown,outside⟩
    have inside : i < ((literalTokens text).flatMap Token.text).length := by
      rw [whole]
      exact (List.getElem?_eq_some_iff.mp shown).1
    obtain ⟨⟨place,token⟩,member,low,high⟩ := @exists_placed 0 i _ inside
    rw [Nat.zero_add] at low high
    have stands := getElem?_flatMap (fun _ => rfl) member low high
    obtain ⟨front,back,shape,rfl⟩ := exists_front member
    cases token with
    | literal literal => exact absurd ⟨_,List.mem_filter.mpr ⟨member,rfl⟩,low,high⟩ outside
    | comment comment =>
      have among : .comment comment ∈ literalTokens text := by simp [shape]
      exact absurd among (divided.no_comment comment)
    | code c =>
      rw [Nat.zero_add] at low high stands
      obtain rfl : i = (spelled front).length := Nat.le_antisymm (Nat.lt_succ_iff.mp high) low
      rw [whole,Nat.sub_zero,shown,Nat.sub_self] at stands
      cases stands
      exact ⟨front,back,shape,rfl⟩
  · rintro ⟨front,back,shape,rfl⟩
    constructor
    · rw [← whole,shape,List.flatMap_append,spelled,List.getElem?_append_right (Nat.le_refl _),
        Nat.sub_self]
      rfl
    · rintro ⟨entry,among,low,high⟩
      obtain ⟨member,kind⟩ := List.mem_filter.mp among
      have here : ((spelled front).length,.code separator) ∈ placed 0 (literalTokens text) := by
        rw [shape,placed_append,Nat.zero_add]
        exact List.mem_append_right _ List.mem_cons_self
      have same : entry = ((spelled front).length,.code separator) :=
        @eq_of_overlap _ _ Prod.fst (fun entry => entry.1 + entry.2.text.length)
          (pairwise_placed 0 _).2 _ _ member here (Nat.lt_succ_of_le low) high
      rw [same] at kind
      cases kind

theorem openBrackets_take {front back : List Token} {token : Token}
    (shape : literalTokens text = front ++ token :: back) :
    openBrackets (text.take (spelled front).length) = front.foldl Token.nest [] := by
  have whole := (quotes_literalTokens text).text_eq
  have before : text.take (spelled front).length = spelled front := by
    rw [← whole,shape,List.flatMap_append]
    exact List.take_left
  have stretch : front <:+: literalTokens text := by
    rw [shape]
    exact (List.prefix_append front _).isInfix
  rw [before,openBrackets,literalTokens_stretch stretch]

/-- Joined by the separator the parts are the text, and none of them is divided any further. The
text is cut where the separator stands outside of the literals and no bracket is open in front of
it; an opening bracket as the separator is never in force. -/
theorem splitTopLevel_cuts (separator : Char) (text : List Char) :
    [separator].intercalate (splitTopLevel separator text) = text ∧
      (∀ part ∈ splitTopLevel separator text, splitTopLevel separator part = [part]) ∧
      ∀ i, IsCut separator (splitTopLevel separator text) i ↔
        isOpening separator = false ∧ text[i]? = some separator ∧ ¬Quoted text i ∧
          openBrackets (text.take i) = [] := by
  rw [splitTopLevel_pieces]
  refine ⟨?_,?_,?_⟩
  · rw [intercalate_pieces]
    exact (quotes_literalTokens text).text_eq
  · rw [List.forall_mem_map]
    intro piece member
    obtain ⟨first,others,shape⟩ := exists_pieces separator [] (literalTokens text)
    obtain ⟨whole,each⟩ := pieces_uncut shape
    obtain ⟨here,below⟩ := stretches_of_pieces shape
    have uncut : pieces separator [] piece = [piece] ∧ piece <:+: literalTokens text := by
      rcases List.mem_cons.mp (shape ▸ member) with rfl | later
      · exact ⟨whole,here.isInfix⟩
      · exact ⟨each piece later,below piece later⟩
    rw [splitTopLevel_pieces,literalTokens_stretch uncut.2,uncut.1,List.map_singleton]
  · intro i
    rw [isCut_pieces]
    constructor
    · rintro ⟨front,back,shape,rfl,closed,plain⟩
      obtain ⟨shown,outside⟩ := stands_iff.mpr ⟨front,back,shape,rfl⟩
      exact ⟨plain,shown,outside,by rw [openBrackets_take shape,closed]⟩
    · rintro ⟨plain,shown,outside,closed⟩
      obtain ⟨front,back,shape,rfl⟩ := stands_iff.mp ⟨shown,outside⟩
      rw [openBrackets_take shape] at closed
      exact ⟨front,back,shape,rfl,closed,plain⟩

example : splitTopLevel ',' "A(\"x, y\"), B(1, 2)".toList =
    ["A(\"x, y\")".toList," B(1, 2)".toList] := by decide +kernel

end Places

end JavaAtlas.Lexical
