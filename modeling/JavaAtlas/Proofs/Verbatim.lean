import JavaAtlas.Proofs.Marks
import JavaAtlas.Proofs.Quotations

/-! Annotations as they stand in a text. Extents are measured where the literals are blank and what
is in them is taken from the text itself; since a mask moves nothing, an annotation is the very
stretch of the text in which it was found. -/
namespace JavaAtlas
open Lexical

namespace Lexical
variable {text part : List Char} {start stop : Nat}

/-- A stretch that is seen without a space in it is that of the text. -/
theorem slice_of_shown (shown : Text.slice (maskLiterals text) start stop = part)
    (solid : ∀ c ∈ part, c ≠ ' ') : Text.slice text start stop = part := by
  rw [← shown]
  apply Text.slice_congr
  intro i low high
  cases seen : (maskLiterals text)[i]? with
  | none =>
    rw [List.getElem?_eq_none_iff] at seen ⊢
    rwa [← length_maskLiterals]
  | some c => exact getElem?_of_shown seen (solid c (shown ▸ Text.mem_slice low high seen))

end Lexical

namespace AnnotationUse
open Pattern

/-- The characters of a text from one place to before another. -/
structure Stretch where
  start : Nat
  stop : Nat

/-- The annotation stands there as it is written. It does not begin in a literal, and its parentheses
hold a closing one only in literals. -/
structure Written (text : List Char) (found : List Token) (mark : AnnotationUse) (at_ : Stretch) :
    Prop where
  slice : Text.slice text at_.start at_.stop = mark.text.toList
  within : at_.start < at_.stop ∧ at_.stop ≤ text.length
  outside : ¬Covers found at_.start
  closed : mark.arguments.isSome = true → ∀ i, at_.start + mark.name.toList.length + 2 ≤ i →
    i + 1 < at_.stop → text[i]? = some ')' → Covers found i

theorem solid_of_isNameChar {c : Char} (letter : Header.isNameChar c = true) : c ≠ ' ' := by
  rintro rfl
  exact absurd letter (by decide)

/-- Where a mark is followed by a character of a name, an annotation is matched. -/
theorem exists_matchAt {c : Char} (letter : Header.isNameChar c = true) (rest : List Char)
    (border : Option Char) (position : Nat) :
    ∃ found, pattern.matchAt border position ('@' :: c :: rest) = some found ∧
      position < found.stop := by
  have letters : ∀ d ∈ [c], Header.isNameChar d = true := List.forall_mem_singleton.mpr letter
  obtain ⟨extent,more,whole,closes⟩ :=
    exists_closing ⟨[c],none,List.cons_ne_nil _ _,letters,nofun⟩ rest
  have matched := extent.matchAt_closing closes border position
  rw [← whole] at matched
  exact ⟨_,matched,Nat.lt_add_of_pos_right (Nat.succ_pos _)⟩

section Extents
variable {text front more : List Char} (extent : Extent)

/-- What is read of an extent: its name, and the text where the parentheses were matched. -/
theorem ofMatch_found (position : Nat) : ofMatch text (extent.found position) =
    ⟨String.ofList extent.name,extent.inside.map fun part => String.ofList
      (Text.slice text (position + extent.name.length + 2)
        (position + extent.name.length + 2 + part.length))⟩ := by
  simp only [ofMatch,Match.captured,Match.capture?,Extent.found]
  cases extent.inside <;> rfl

variable (seen : maskLiterals text = front ++ (extent.text ++ more))
include seen

/-- The text of an annotation is put together as the annotation was taken apart. -/
theorem slice_found : Text.slice text front.length (front.length + extent.text.length) =
    (ofMatch text (extent.found front.length)).text.toList := by
  rw [ofMatch_found]
  have solid : ∀ c ∈ extent.name, c ≠ ' ' := fun c member =>
    solid_of_isNameChar (extent.letters c member)
  unfold Extent.text at seen ⊢
  cases arguments : extent.inside with
  | none =>
    rw [arguments] at seen
    have name := slice_of_shown (Text.slice_part seen rfl rfl)
      (by simpa [Extent.brackets] using solid)
    simpa [AnnotationUse.text,Extent.brackets] using name
  | some part =>
    rw [arguments] at seen
    let opening := '@' :: (extent.name ++ ['('])
    let start := front.length + extent.name.length + 2
    have first : Text.slice text front.length start = opening := by
      refine slice_of_shown (@Text.slice_part _ _ _ front opening (part ++ ')' :: more) ?_ rfl ?_) ?_
      · simp [seen,opening,Extent.brackets]
      · simp [opening,start,Nat.add_assoc]
      · simpa [opening,or_imp,forall_and] using solid
    have last : Text.slice text (start + part.length) (start + part.length + 1) = [')'] := by
      refine slice_of_shown
        (@Text.slice_part _ _ _ (front ++ (opening ++ part)) [')'] more ?_ ?_ rfl) (by simp)
      · simp [seen,opening,Extent.brackets]
      · simp only [opening,start,List.length_append,List.length_cons,List.length_nil]
        omega
    have length : front.length + ('@' :: (extent.name ++ Extent.brackets (some part))).length =
        start + part.length + 1 := by
      simp only [start,Extent.brackets,Option.elim_some,List.length_append,List.length_cons,
        List.length_nil]
      omega
    have inner : Text.slice text front.length (start + part.length) =
        opening ++ Text.slice text start (start + part.length) := by
      rw [← first]
      exact Text.slice_join (by omega) (by omega)
    have whole : Text.slice text front.length (start + part.length + 1) =
        Text.slice text front.length (start + part.length) ++ [')'] := by
      rw [← last]
      exact Text.slice_join (by omega) (by omega)
    rw [length,whole,inner]
    simp [AnnotationUse.text,opening,start]

/-- An annotation that is found is written so where it was found. -/
theorem written_found : Written text (literalTokens text)
    (ofMatch text (extent.found front.length))
    ⟨front.length,front.length + extent.text.length⟩ := by
  have size := congrArg List.length seen
  rw [length_maskLiterals,List.length_append,List.length_append] at size
  have filled := List.length_pos_of_ne_nil extent.named
  have long : extent.name.length + 1 ≤ extent.text.length := by
    simp only [Extent.text,List.length_cons,List.length_append]
    omega
  refine ⟨slice_found extent seen,⟨?_,?_⟩,?_,?_⟩
  · exact Nat.lt_add_of_pos_right (by omega)
  · dsimp only
    omega
  · have mark : (maskLiterals text)[front.length]? = some '@' := by
      rw [seen,List.getElem?_append_right (Nat.le_refl _),Nat.sub_self]
      rfl
    exact not_covers_of_shown mark rfl rfl (by dsimp only; omega)
  · intro bracketed i low high closing
    rw [ofMatch_found] at bracketed low
    obtain ⟨part,arguments⟩ := Option.isSome_iff_exists.mp ((Option.isSome_map ..).symm.trans bracketed)
    by_contra outside
    rw [← shown_of_not_covers outside] at closing
    have shape : maskLiterals text =
        (front ++ '@' :: (extent.name ++ ['('])) ++ (part ++ ([')'] ++ more)) := by
      rw [seen,Extent.text,arguments]
      simp [Extent.brackets]
    have length := extent.length_bracketed arguments
    have inside : Text.slice (maskLiterals text) (front.length + extent.name.length + 2)
        (front.length + extent.name.length + 2 + part.length) = part :=
      Text.slice_part shape (by simp; omega) rfl
    have member : ')' ∈ part := by
      rw [← inside]
      simp only [String.toList_ofList] at low
      exact Text.mem_slice (by omega) (by dsimp only at high; omega) closing
    exact extent.unclosed part arguments member

end Extents

/-- The annotations that are read stand in the text as they are written, one behind another, and
their parentheses close nowhere but in literals before their end. Every mark of the code in front of
a character of a name begins one of them, if it is not within an earlier one. -/
theorem readAll_verbatim (text : List Char) :
    ∃ found : List Token, (∀ others, Quotes text others ↔ others = found) ∧
      ∃ places : List Stretch, List.Forall₂ (Written text found) (readAll text) places ∧
        places.Pairwise (fun first second => first.stop ≤ second.start) ∧
        ∀ i, text[i]? = some '@' → ¬Covers found i →
          (∃ c, text[i + 1]? = some c ∧ Header.isNameChar c = true) →
            (∃ place ∈ places, place.start = i) ∨
              ∃ place ∈ places, place.start < i ∧ i < place.stop := by
  let founds := pattern.findFrom none 0 (maskLiterals text)
  let place (found : Match) : Stretch := ⟨found.start,found.stop⟩
  refine ⟨literalTokens text,fun _ => quotes_iff,founds.map place,?_,?_,?_⟩
  · rw [readAll_eq,List.forall₂_map_left_iff,List.forall₂_map_right_iff,List.forall₂_same]
    intro found member
    obtain ⟨extent,front,more,rfl,seen⟩ := exists_standing member
    exact written_found extent seen
  · rw [List.pairwise_map]
    exact (pairwise_findFrom pattern _ none 0).2
  · rintro i mark outside ⟨c,next,letter⟩
    have after : ¬Covers (literalTokens text) (i + 1) := by
      intro inside
      obtain ⟨quote,opens,quoted⟩ := isQuote_of_enters outside inside
      cases next.symm.trans opens
      rw [isQuote_of_isInert (isInert_of_isNameChar letter)] at quoted
      cases quoted
    rw [← shown_of_not_covers outside] at mark
    rw [← shown_of_not_covers after] at next
    obtain ⟨inside,here⟩ := List.getElem?_eq_some_iff.mp mark
    obtain ⟨further,there⟩ := List.getElem?_eq_some_iff.mp next
    have starts : (maskLiterals text).drop i = '@' :: c :: (maskLiterals text).drop (i + 2) := by
      rw [List.drop_eq_getElem_cons inside,here,List.drop_eq_getElem_cons further,there]
    obtain ⟨found,member,low,high⟩ : ∃ found ∈ founds, found.start ≤ 0 + i ∧ 0 + i < found.stop :=
      mem_findFrom_of_matchAt inside fun border => by
        rw [starts]
        exact exists_matchAt letter _ border (0 + i)
    rw [Nat.zero_add] at low high
    rcases Nat.eq_or_lt_of_le low with first | later
    · exact .inl ⟨place found,List.mem_map_of_mem member,first⟩
    · exact .inr ⟨place found,List.mem_map_of_mem member,later,high⟩

end AnnotationUse

end JavaAtlas
