import JavaAtlas.Lexical.Boundary
import JavaAtlas.Proofs.Quotations

/-! Masks of a part of a text. Behind a character that is seen and belongs to no literal the mask of
the rest is the rest of the mask; and a literal that is cut short is a literal still, so that the mask
of a part shows what the mask of the whole does, but for the last character, which always shows. -/
namespace JavaAtlas.Lexical
variable {text inside rest : List Char} {i : Nat} {c : Char}

/-- A text can be cut behind what is seen of its code. -/
theorem maskLiterals_drop (shown : (maskLiterals text)[i]? = some c) (solid : Text.isBlank c = false)
    (bare : isQuote c = false) :
    maskLiterals (text.drop (i + 1)) = (maskLiterals text).drop (i + 1) := by
  have divided := quotes_literalTokens text
  generalize literalTokens text = found at divided
  induction divided generalizing i with
  | done => rfl
  | @code d rest _ plain _ ih =>
    rw [maskLiterals_code plain] at shown ⊢
    cases i with
    | zero => rfl
    | succ i => exact ih shown
  | @literal inside rest _ whole _ ih =>
    have ends := whole.length
    obtain ⟨quote,others,rfl,quoted⟩ := whole.opens
    have length := (shows_hollow (quote :: others)).length_eq
    rw [List.cons_append,maskLiterals_literal quoted ends] at shown ⊢
    rw [← List.cons_append]
    by_cases inner : i < (quote :: others).length
    · rw [List.getElem?_append_left (by omega)] at shown
      -- Only a literal that runs to the end of the text ends with such a character.
      have last : i + 1 = (quote :: others).length ∧ rest = [] := by
        rcases hollow_cases shown with first | blank | ⟨last,ends⟩
        · cases first
          rw [quoted] at bare
          cases bare
        · rcases blank with rfl | rfl <;> cases solid
        · refine ⟨last,?_⟩
          rcases whole.last ends with quoted | line | ended
          · rw [quoted] at bare
            cases bare
          · rw [line] at solid
            cases solid
          · exact ended
      obtain ⟨last,rfl⟩ := last
      have all : (hollow (quote :: others) ++ maskLiterals []).length ≤ i + 1 := by
        rw [last,length]
        exact Nat.le_of_eq (congrArg List.length (List.append_nil _))
      rw [List.append_nil,last,List.drop_length,← last,List.drop_eq_nil_of_le all]
      rfl
    · obtain ⟨j,rfl⟩ := Nat.exists_eq_add_of_le (Nat.le_of_not_lt inner)
      rw [length,List.getElem?_append_right (Nat.le_add_right _ j),Nat.add_sub_cancel_left] at shown
      rw [Nat.add_assoc,List.drop_length_add_append,ih shown,length,List.drop_length_add_append]

/-- A literal cut short is a literal. -/
theorem IsLiteral.cut (whole : IsLiteral text rest) {n : Nat} (within : n < text.length) :
    literalLength (text.take (n + 1)) = n + 1 := by
  have high := literalLength_le (text.take (n + 1))
  rw [List.length_take,Nat.min_eq_left within] at high
  by_contra other
  -- One that ended before would end there in the whole text too.
  obtain ⟨k,reach⟩ : ∃ k, literalLength (text.take (n + 1)) = k := ⟨_,rfl⟩
  have before : k < n + 1 := by omega
  have front : (text.take k).length = k := by
    rw [List.length_take]
    omega
  have further : (text.take (n + 1)).drop k ≠ [] := by
    rw [ne_eq,List.drop_eq_nil_iff,List.length_take]
    omega
  have next : (text.drop k ++ rest).head? = ((text.take (n + 1)).drop k).head? := by
    rw [List.head?_drop,List.getElem?_take_of_lt before,List.head?_append,List.head?_drop,
      List.getElem?_eq_getElem (by omega)]
    rfl
  have early : literalLength (text.take k ++ (text.take (n + 1)).drop k) = (text.take k).length := by
    have shape : text.take k = (text.take (n + 1)).take k := by
      rw [List.take_take,Nat.min_eq_left (Nat.le_of_lt before)]
    rw [front,shape,List.take_append_drop,reach]
  have again := literalLength_local further (fun quote => next ▸ quote) early
  rw [← List.append_assoc,List.take_append_drop,whole.length,front] at again
  omega

theorem hollow_take (text : List Char) (n : Nat) :
    hollow (text.take (n + 1)) = (hollow text).take n ++ text[n]?.toList := by
  match text, n with
  | [], n => simp [hollow]
  | quote :: inside, 0 => simp [hollow,blanked]
  | quote :: inside, n + 1 =>
    rw [List.take_succ_cons,hollow,hollow,List.take_succ_cons,List.getElem?_cons_succ,
      List.cons_append]
    congr 1
    rcases Nat.lt_or_ge n inside.length with within | beyond
    · have shorter : n ≤ (blanked inside.dropLast).length := by
        rw [blanked,List.length_map,List.length_dropLast]
        omega
      have last : (inside.take (n + 1)).getLast? = inside[n]? := by
        rw [List.getLast?_eq_getElem?,List.length_take,Nat.min_eq_left within]
        exact List.getElem?_take_of_lt (Nat.lt_succ_self n)
      have front : (inside.take (n + 1)).dropLast = inside.dropLast.take n := by
        rw [List.dropLast_eq_take,List.dropLast_eq_take,List.length_take,Nat.min_eq_left within,
          List.take_take,List.take_take]
        congr 1
        omega
      rw [List.take_append_of_le_length shorter,last,front,blanked,blanked,List.map_take]
    · have all : (blanked inside.dropLast ++ inside.getLast?.toList).length ≤ n := by
        have length := (shows_hollow (quote :: inside)).length_eq
        rw [hollow,List.length_cons,List.length_cons] at length
        omega
      rw [List.take_of_length_le (by omega),List.take_of_length_le all,List.getElem?_eq_none beyond]
      simp

theorem maskLiterals_take (text : List Char) (n : Nat) :
    maskLiterals (text.take (n + 1)) = (maskLiterals text).take n ++ text[n]?.toList := by
  have divided := quotes_literalTokens text
  generalize literalTokens text = found at divided
  induction divided generalizing n with
  | done => rw [List.take_nil]; simp [maskLiterals,literalTokens,tokensFrom]
  | @code c rest _ bare _ ih =>
    cases n with
    | zero => simp [maskLiterals_code bare]; rfl
    | succ n =>
      rw [List.take_succ_cons,maskLiterals_code bare,maskLiterals_code bare,ih,List.take_succ_cons,
        List.getElem?_cons_succ,List.cons_append]
  | @literal inside rest _ whole _ ih =>
    have length := (shows_hollow inside).length_eq
    have ends := whole.length
    have masked : maskLiterals (inside ++ rest) = hollow inside ++ maskLiterals rest := by
      obtain ⟨quote,others,rfl,quoted⟩ := whole.opens
      exact maskLiterals_literal quoted ends
    rw [masked]
    rcases Nat.lt_or_ge n inside.length with within | beyond
    · have cut := whole.cut within
      have alone : maskLiterals (inside.take (n + 1)) = hollow (inside.take (n + 1)) := by
        obtain ⟨quote,others,rfl,quoted⟩ := whole.opens
        rw [List.take_succ_cons] at cut ⊢
        have literal := @maskLiterals_literal quote (others.take n) [] quoted (by
          rw [List.append_nil,cut,List.length_take,Nat.min_eq_left]
          exact Nat.le_of_lt_succ within)
        rw [List.append_nil] at literal
        rw [literal]
        exact List.append_nil _
      rw [List.take_append_of_le_length within,alone,hollow_take,
        List.take_append_of_le_length (by omega),List.getElem?_append_left within]
    · obtain ⟨j,rfl⟩ := Nat.exists_eq_add_of_le beyond
      rw [Nat.add_assoc,List.take_length_add_append,List.getElem?_append_right (by omega),
        Nat.add_sub_cancel_left,length,List.take_length_add_append,List.append_assoc,← ih]
      cases rest with
      | nil => exact masked
      | cons c rest =>
        have before := whole.in_front ((c :: rest).take (j + 1)) (List.cons_ne_nil c rest) id
        obtain ⟨quote,others,rfl,quoted⟩ := before.opens
        exact maskLiterals_literal quoted before.length

/-- A place at which a declaration may start. -/
def Begins (mask : List Char) (start : Nat) : Prop :=
  start = 0 ∨ ∃ c, mask[start - 1]? = some c ∧ isBoundary c = true

theorem maskLiterals_from {start : Nat} (begins : Begins (maskLiterals text) start) :
    maskLiterals (text.drop start) = (maskLiterals text).drop start := by
  rcases begins with rfl | ⟨c,shown,boundary⟩
  · rfl
  · have kind : Text.isBlank c = false ∧ isQuote c = false := by
      rcases isBoundary_iff.mp boundary with rfl | rfl | rfl <;> decide
    cases start with
    | zero => rfl
    | succ start => exact maskLiterals_drop shown kind.1 kind.2

/-- The mask of a stretch from a declaration's start on. -/
theorem maskLiterals_slice {start n : Nat} (begins : Begins (maskLiterals text) start)
    (low : start ≤ n) :
    maskLiterals (Text.slice text start (n + 1)) =
      Text.slice (maskLiterals text) start n ++ text[n]?.toList := by
  obtain ⟨k,rfl⟩ := Nat.exists_eq_add_of_le low
  have size : start + k + 1 - start = k + 1 := by omega
  rw [Text.slice,List.drop_take,size,maskLiterals_take,maskLiterals_from begins,List.getElem?_drop,
    Text.slice,List.drop_take,Nat.add_sub_cancel_left]

end JavaAtlas.Lexical
