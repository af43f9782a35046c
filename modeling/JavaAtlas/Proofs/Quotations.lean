import JavaAtlas.Proofs.Visible

/-! Literals of a text in which comments mean nothing. A quote opens a literal, and every other
character stands for itself; a text is divided in one way, and the mask shows each place outside of
the literals as it is. -/
namespace JavaAtlas.Lexical
variable {text rest : List Char} {found : List Token} {place i : Nat} {c : Char}

/-- The text consists of the tokens, and a slash opens none of them. -/
inductive Quotes : List Char → List Token → Prop where
  | done : Quotes [] []
  | literal {text rest : List Char} {found : List Token} : IsLiteral text rest → Quotes rest found →
      Quotes (text ++ rest) (.literal text :: found)
  | code {c : Char} {rest : List Char} {found : List Token} : isQuote c = false →
      Quotes rest found → Quotes (c :: rest) (.code c :: found)

theorem quotes_literalTokens : ∀ text, Quotes text (literalTokens text)
  | [] => .done
  | c :: rest => by
    cases quoted : isQuote c with
    | false =>
      rw [literalTokens_code quoted]
      exact .code quoted (quotes_literalTokens rest)
    | true =>
      obtain ⟨inside,more,shape,length⟩ := take_drop_split (literalLength_pos c rest)
        (literalLength_le (c :: rest))
      have shorter : more.length ≤ rest.length := by simp [shape]
      have above := quotes_literalTokens more
      subst shape
      rw [literalTokens_literal quoted length]
      exact .literal (isLiteral_of_length quoted length) above
termination_by text => text.length
decreasing_by all_goals simp only [List.length_cons]; omega

theorem Quotes.eq_literalTokens (divided : Quotes text found) : found = literalTokens text := by
  induction divided with
  | done => rfl
  | @literal text rest found whole _ ih =>
    obtain ⟨quote,inside,rfl,quoted⟩ := whole.opens
    rw [List.cons_append,literalTokens_literal quoted whole.length,ih]
  | code bare _ ih => rw [literalTokens_code bare,ih]

theorem quotes_iff : Quotes text found ↔ found = literalTokens text :=
  ⟨Quotes.eq_literalTokens,fun same => same ▸ quotes_literalTokens text⟩

theorem Quotes.text_eq (divided : Quotes text found) : found.flatMap Token.text = text := by
  induction divided with
  | done => rfl
  | literal _ _ ih => rw [List.flatMap_cons,ih]; rfl
  | code _ _ ih => rw [List.flatMap_cons,ih]; rfl

/-- A literal ends where it does in front of another text too, if no quote makes a block of it. -/
theorem IsLiteral.in_front (whole : IsLiteral text rest) (more : List Char) (further : rest ≠ [])
    (same : more.head? = some '"' → rest.head? = some '"') : IsLiteral text more := by
  obtain ⟨quote,inside,rfl,quoted⟩ := whole.opens
  exact isLiteral_of_length quoted (literalLength_local further same whole.length)

/-- A literal among the tokens stands whole in the text. -/
theorem Quotes.literal_at (divided : Quotes text found) {start : Nat} {inside : List Char}
    (member : (place,.literal inside) ∈ placed start found) :
    ∃ before rest, text = before ++ (inside ++ rest) ∧ place = start + before.length ∧
      IsLiteral inside rest := by
  have passes {first : Token} {others : List Char} {start : Nat}
      (later : ∃ before rest, others = before ++ (inside ++ rest) ∧
        place = start + first.text.length + before.length ∧ IsLiteral inside rest) :
      ∃ before rest, first.text ++ others = before ++ (inside ++ rest) ∧
        place = start + before.length ∧ IsLiteral inside rest := by
    obtain ⟨before,rest,rfl,reached,whole⟩ := later
    exact ⟨first.text ++ before,rest,by simp,by simp [reached,Nat.add_assoc],whole⟩
  induction divided generalizing start with
  | done => cases member
  | @literal text _ _ whole _ ih =>
    rcases List.mem_cons.mp member with here | later
    · cases here
      exact ⟨[],_,rfl,rfl,whole⟩
    · exact @passes (.literal text) _ _ (ih later)
  | @code c _ _ _ _ ih =>
    exact @passes (.code c) _ _ (ih ((List.mem_cons.mp member).resolve_left (by simp)))

/-- The place belongs to a literal among the tokens. -/
def Covers (found : List Token) (i : Nat) : Prop :=
  ∃ entry ∈ literalsFrom 0 found, entry.1 ≤ i ∧ i < entry.1 + entry.2.text.length

theorem Quotes.shows (divided : Quotes text found) :
    List.Forall₂ Shows text (found.flatMap Token.withoutInterior) := by
  induction divided with
  | done => exact .nil
  | literal _ _ ih => exact List.rel_append (shows_hollow _) ih
  | code _ _ ih => exact .cons (.inl rfl) ih

theorem shows_maskLiterals (text : List Char) : List.Forall₂ Shows text (maskLiterals text) :=
  (quotes_literalTokens text).shows

theorem length_maskLiterals (text : List Char) : (maskLiterals text).length = text.length :=
  (shows_maskLiterals text).length_eq.symm

theorem length_withoutInterior (token : Token) :
    token.withoutInterior.length = token.text.length := by
  cases token with
  | literal text => exact (shows_hollow text).length_eq.symm
  | code c => rfl
  | comment text => rfl

/-- What is seen and is no space stands in the text. -/
theorem getElem?_of_shown (shown : (maskLiterals text)[i]? = some c) (solid : c ≠ ' ') :
    text[i]? = some c := by
  rcases getElem?_of_shows (shows_maskLiterals text) i with same | ⟨_,blank⟩
  · rw [← same,shown]
  · rw [blank] at shown
    exact absurd (Option.some.inj shown).symm solid

/-- Outside of the literals the text is seen as it is. -/
theorem shown_of_not_covers (outside : ¬Covers (literalTokens text) i) :
    (maskLiterals text)[i]? = text[i]? := by
  have whole := (quotes_literalTokens text).text_eq
  rcases Nat.lt_or_ge i text.length with inside | beyond
  · rw [← whole] at inside
    obtain ⟨⟨place,token⟩,member,low,high⟩ := @exists_placed 0 i _ inside
    rw [Nat.zero_add] at low high
    have kept : token.withoutInterior = token.text := by
      cases token with
      | code c => rfl
      | comment text => rfl
      | literal inside =>
        exact absurd ⟨_,List.mem_filter.mpr ⟨member,rfl⟩,low,high⟩ outside
    have shown := getElem?_flatMap length_withoutInterior member low high
    have stands := getElem?_flatMap (fun _ => rfl) member low high
    rw [kept,← stands,whole] at shown
    exact shown
  · rw [List.getElem?_eq_none beyond,List.getElem?_eq_none]
    rwa [length_maskLiterals]

theorem literal_of_covers (inside : Covers (literalTokens text) i) :
    ∃ before literal rest, text = before ++ (literal ++ rest) ∧ IsLiteral literal rest ∧
      (before.length,.literal literal) ∈ placed 0 (literalTokens text) ∧ before.length ≤ i ∧
      i < before.length + literal.length := by
  obtain ⟨⟨place,token⟩,among,low,high⟩ := inside
  obtain ⟨member,kind⟩ := List.mem_filter.mp among
  cases token with
  | code => cases kind
  | comment => cases kind
  | literal literal =>
    obtain ⟨before,rest,shape,rfl,whole⟩ := (quotes_literalTokens text).literal_at member
    rw [Nat.zero_add] at member low high
    exact ⟨before,literal,rest,shape,whole,member,low,high⟩

/-- A literal begins with a quote. -/
theorem isQuote_of_enters (outside : ¬Covers (literalTokens text) i)
    (inside : Covers (literalTokens text) (i + 1)) :
    ∃ quote, text[i + 1]? = some quote ∧ isQuote quote = true := by
  obtain ⟨before,literal,rest,shape,whole,member,low,high⟩ := literal_of_covers inside
  have start : before.length = i + 1 := by
    by_contra apart
    exact outside ⟨_,List.mem_filter.mpr ⟨member,rfl⟩,by dsimp only; omega,
      by dsimp only [Token.text]; omega⟩
  obtain ⟨quote,others,rfl,quoted⟩ := whole.opens
  refine ⟨quote,?_,quoted⟩
  rw [shape,← start,List.getElem?_append_right (Nat.le_refl _),Nat.sub_self]
  rfl

/-- A character that is seen is outside of the literals if it is no blank, no quote and not the last
one. -/
theorem not_covers_of_shown (shown : (maskLiterals text)[i]? = some c)
    (solid : Text.isBlank c = false) (bare : isQuote c = false) (further : i + 1 < text.length) :
    ¬Covers (literalTokens text) i := by
  intro inside
  obtain ⟨before,literal,rest,shape,whole,member,low,high⟩ := literal_of_covers inside
  have seen := getElem?_flatMap length_withoutInterior member low high
  rw [Nat.sub_zero] at seen
  rcases hollow_cases (seen.symm.trans shown) with first | blank | ⟨ends,last⟩
  · obtain ⟨quote,others,rfl,quoted⟩ := whole.opens
    cases first
    exact absurd bare (by simp [quoted])
  · rcases blank with rfl | rfl <;> cases solid
  · rcases IsLiteral.last whole last with quoted | rfl | rfl
    · exact absurd bare (by simp [quoted])
    · cases solid
    · rw [shape,List.length_append,List.append_nil] at further
      omega

end JavaAtlas.Lexical
