import JavaAtlas.Proofs.Lexing
import JavaAtlas.Proofs.Words

/-! What the masks let through. A character that is seen where comments and literals are masked
belongs to the code, unless it delimits a literal or ends the text; and a literal shows where it
begins, so that there is none in a stretch without quotes. -/
namespace JavaAtlas.Lexical
variable {content text rest : List Char} {place i low high : Nat} {token : Token} {c : Char}

/-- The place belongs neither to a literal nor to a comment. -/
def InCode (content : List Char) (i : Nat) : Prop := ¬InLiteral content i ∧ ¬InComment content i

theorem masks_of_placed (member : (place,token) ∈ placed 0 (tokens content)) (low : place ≤ i)
    (high : i < place + token.text.length) :
    (maskLiterals (maskComments content))[i]? = token.masked[i - place]? := by
  have same := getElem?_flatMap (fun token => token.shows_masked.length_eq.symm) member low high
  rwa [Nat.sub_zero,← maskLiterals_maskComments] at same

/-- A place belongs to one token. -/
theorem eq_of_placed {one two : Nat × Token} (inOne : one ∈ placed 0 (tokens content))
    (inTwo : two ∈ placed 0 (tokens content)) (low : one.1 ≤ i)
    (high : i < one.1 + one.2.text.length) (above : two.1 ≤ i)
    (below : i < two.1 + two.2.text.length) : one = two :=
  @eq_of_overlap _ (placed 0 (tokens content)) Prod.fst (fun entry => entry.1 + entry.2.text.length)
    (pairwise_placed 0 _).2 one two inOne inTwo (Nat.lt_of_le_of_lt low below)
    (Nat.lt_of_le_of_lt above high)

theorem inCode_of_code (member : (i,.code c) ∈ placed 0 (tokens content)) : InCode content i := by
  have here : i < i + (Token.code c).text.length := Nat.lt_succ_self i
  constructor
  · rintro ⟨entry,among,kind,low,high⟩
    cases eq_of_placed among member low high (Nat.le_refl i) here
    cases kind
  · rintro ⟨place,text,among,low,high⟩
    cases eq_of_placed among member low high (Nat.le_refl i) here

section Literals

/-- A literal ends in a quote or with its line, unless it runs to the end of the text. -/
theorem IsLiteral.last (whole : IsLiteral text rest) (ends : text.getLast? = some c) :
    isQuote c = true ∨ c = '\n' ∨ rest = [] := by
  cases whole with
  | @closed quote last inside _ quoted _ closes =>
    rw [← List.cons_append,List.getLast?_concat] at ends
    cases ends
    rcases closes with rfl | line
    · exact .inl quoted
    · exact .inr (.inl line)
  | unclosed => exact .inr (.inr rfl)
  | @block inside _ _ =>
    have shape : tripleQuote ++ (inside ++ tripleQuote) =
        (tripleQuote ++ inside ++ ['"','"']) ++ ['"'] := by simp [tripleQuote]
    rw [shape,List.getLast?_concat] at ends
    cases ends
    exact .inl rfl
  | openBlock => exact .inr (.inr rfl)

theorem hollow_cases (shown : (hollow text)[i]? = some c) :
    text.head? = some c ∨ (c = ' ' ∨ c = '\n') ∨ i + 1 = text.length ∧ text.getLast? = some c := by
  match text with
  | [] => cases shown
  | quote :: inside =>
    cases i with
    | zero => exact .inl shown
    | succ i =>
      right
      rcases inside.eq_nil_or_concat with rfl | ⟨inside,last,rfl⟩
      · cases shown
      · rw [List.concat_eq_append] at shown ⊢
        rw [hollow,List.dropLast_concat,List.getLast?_concat,List.getElem?_cons_succ,
          Option.toList_some] at shown
        rw [← List.cons_append,List.getLast?_concat]
        have length : (blanked inside).length = inside.length := List.length_map _
        rcases Nat.lt_or_ge i inside.length with inner | outer
        · rw [List.getElem?_append_left (by omega)] at shown
          exact .inl (mem_blanked (List.mem_of_getElem? shown))
        · have here := (List.getElem?_eq_some_iff.mp shown).1
          rw [List.length_append,List.length_singleton] at here
          obtain rfl : i = inside.length := by omega
          rw [← length,List.getElem?_concat_length] at shown
          exact .inr ⟨by simp,shown⟩

end Literals

/-- A character that is seen belongs to the code if it is no blank, no quote and not the last one. -/
theorem inCode_of_shown (shown : (maskLiterals (maskComments content))[i]? = some c)
    (solid : Text.isBlank c = false) (bare : isQuote c = false) (further : i + 1 < content.length) :
    InCode content i := by
  have apart : ¬(c = ' ' ∨ c = '\n') := by
    rintro (rfl | rfl) <;> cases solid
  obtain ⟨place,token,member,low,high⟩ := exists_token (Nat.lt_of_succ_lt further)
  rw [masks_of_placed member low high] at shown
  cases token with
  | code d =>
    obtain rfl : i = place := Nat.le_antisymm (Nat.lt_succ_iff.mp high) low
    exact inCode_of_code member
  | comment text => exact absurd (mem_blanked (List.mem_of_getElem? shown)) apart
  | literal text =>
    exfalso
    obtain ⟨before,rest,shape,rfl,whole⟩ := (lexes_tokens content).token_at member
    rcases hollow_cases shown with first | blank | ⟨ends,last⟩
    · obtain ⟨quote,inside,rfl,quoted⟩ := IsLiteral.opens whole
      cases first
      exact absurd bare (by simp [quoted])
    · exact apart blank
    · rcases IsLiteral.last whole last with quoted | line | rfl
      · exact absurd bare (by simp [quoted])
      · exact apart (.inr line)
      · have length := congrArg List.length shape
        rw [List.append_nil,List.length_append] at length
        change _ = before.length + text.length at length
        omega

theorem not_inComment_of_shown (shown : (maskLiterals (maskComments content))[i]? = some c)
    (solid : Text.isBlank c = false) : ¬InComment content i := by
  rintro ⟨place,text,member,low,high⟩
  rcases blank_of_comment member low high (.inr shown) with rfl | rfl <;> cases solid

/-- No literal begins where no quote is seen. -/
theorem not_inLiteral_of_bare (outside : ¬InLiteral content low)
    (bare : ∀ i c, low ≤ i → i < high → (maskLiterals (maskComments content))[i]? = some c →
      isQuote c = false) (after : low ≤ i) (before : i < high) : ¬InLiteral content i := by
  rintro ⟨⟨place,token⟩,member,kind,start,stop⟩
  cases token with
  | code => cases kind
  | comment => cases kind
  | literal text =>
    dsimp only at start stop
    rcases Nat.lt_or_ge low place with later | earlier
    · obtain ⟨_,_,_,_,whole⟩ := (lexes_tokens content).token_at member
      obtain ⟨quote,inside,rfl,quoted⟩ := IsLiteral.opens whole
      have shown := masks_of_placed member (Nat.le_refl place) (Nat.lt_of_le_of_lt start stop)
      rw [Nat.sub_self] at shown
      have seen := bare place quote (Nat.le_of_lt later) (Nat.lt_of_le_of_lt start before) shown
      exact absurd seen (by simp [quoted])
    · exact outside ⟨_,member,rfl,earlier,Nat.lt_of_le_of_lt after stop⟩

/-- Masking literals changes a character in a literal only. -/
theorem masks_eq_of_not_inLiteral (outside : ¬InLiteral content i) :
    (maskLiterals (maskComments content))[i]? = (maskComments content)[i]? := by
  rcases Nat.lt_or_ge i content.length with inside | beyond
  · obtain ⟨place,token,member,low,high⟩ := exists_token inside
    have shown := getElem?_flatMap length_withoutComment member low high
    rw [Nat.sub_zero] at shown
    rw [masks_of_placed member low high]
    cases token with
    | code c => exact shown.symm
    | comment text => exact shown.symm
    | literal text => exact absurd ⟨_,member,rfl,low,high⟩ outside
  · have length := (shows_masks content).length_eq
    rw [List.getElem?_eq_none (by omega),List.getElem?_eq_none]
    rwa [length_maskComments]

theorem InCode.kept (code : InCode content i) : (maskComments content)[i]? = content[i]? := by
  by_contra changed
  rcases Nat.lt_or_ge i content.length with inside | beyond
  · exact code.2 (inComment_of_ne inside changed)
  · apply changed
    rw [List.getElem?_eq_none beyond,List.getElem?_eq_none]
    rwa [length_maskComments]

section Stretches
variable {start stop : Nat} {part : List Char}

/-- A stretch without quotes is outside of literals if its first character is seen. -/
theorem not_inLiteral_of_slice
    (shown : Text.slice (maskLiterals (maskComments content)) start stop = c :: part)
    (solid : Text.isBlank c = false) (bare : ∀ d ∈ c :: part, isQuote d = false)
    (further : start + 1 < content.length) (after : start ≤ i) (before : i < stop) :
    ¬InLiteral content i := by
  have first : (maskLiterals (maskComments content))[start]? = some c := by
    have here := congrArg (fun text => text[0]?) shown
    rwa [Text.getElem?_slice,Nat.add_zero,if_pos (Nat.lt_of_le_of_lt after before)] at here
  have code := inCode_of_shown first solid (bare c List.mem_cons_self) further
  refine not_inLiteral_of_bare code.1 ?_ after before
  intro j d low high seen
  exact bare d (shown ▸ Text.mem_slice low high seen)

end Stretches

end JavaAtlas.Lexical
