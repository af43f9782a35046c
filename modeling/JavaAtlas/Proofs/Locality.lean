import JavaAtlas.Proofs.Searching
import JavaAtlas.Proofs.Words

/-! Patterns that read a text character by character. Whether such a pattern matches at a place is
settled by the characters that it reads and by those next to them; so what a search finds is found
again in a text that agrees there. -/
namespace JavaAtlas
open Relation (ReflTransGen)

/-- The cursor with another text ahead. -/
def Cursor.facing (cursor : Cursor) (rest : List Char) : Cursor := {cursor with rest := rest}

namespace Pattern
variable {pattern : Pattern} {cursor next : Cursor} {front rest : List Char}

/-- Rounds, if there are any, are those of a single character. -/
def isLocal : Pattern → Bool
  | nothing => true
  | one _ => true
  | seq first second => first.isLocal && second.isLocal
  | either first second => first.isLocal && second.isLocal
  | longest (one _) => true
  | border => true
  | capture _ body => body.isLocal
  | _ => false

theorem isLocal_literal (text : List Char) : (literal text).isLocal = true := by
  induction text with
  | nil => rfl
  | cons c text ih =>
    cases text with
    | nil => rfl
    | cons d text => exact ih

theorem exists_front (way : pattern.Reaches cursor next) : ∃ front, cursor.rest = front ++ next.rest ∧
    next.position = cursor.position + front.length := by
  obtain ⟨⟨front,_,starts,reached⟩,_⟩ := (over_true pattern).of_reaches way
  exact ⟨front,starts,reached⟩

theorem facing_of_one {accepts : Char → Bool} (way : (one accepts).Reaches cursor next)
    (starts : cursor.rest = front ++ next.rest) (other : List Char) :
    (one accepts).Reaches (cursor.facing (front ++ other)) (next.facing other) := by
  obtain ⟨c,rest,shape,accepted,rfl⟩ := way
  have single : front = [c] := by
    rw [Cursor.rest_past [c] shape,shape] at starts
    exact (List.append_cancel_right starts).symm
  exact ⟨c,other,by rw [single]; rfl,accepted,by simp [Cursor.facing,Cursor.past,single]⟩

/-- What is read on a way is what is read up to a place on it, and from there on. -/
theorem front_through {middle : Cursor} {early late other : List Char}
    (starts : cursor.rest = front ++ next.rest) (begins : cursor.rest = early ++ middle.rest)
    (goes : middle.rest = late ++ next.rest) (same : other.head? = next.rest.head?) :
    front = early ++ late ∧ (late ++ other).head? = middle.rest.head? := by
  rw [begins,goes,← List.append_assoc] at starts
  refine ⟨(List.append_cancel_right starts).symm,?_⟩
  rw [goes,List.head?_append,List.head?_append,same]

/-- Where there is a way in one text there is one in a text that agrees on what is read and on the
next character. -/
theorem reaches_facing (simple : pattern.isLocal = true) (way : pattern.Reaches cursor next)
    (starts : cursor.rest = front ++ next.rest) {other : List Char}
    (same : other.head? = next.rest.head?) :
    pattern.Reaches (cursor.facing (front ++ other)) (next.facing other) := by
  have empty {cursor : Cursor} {front : List Char} (starts : cursor.rest = front ++ cursor.rest) :
      front = [] := by simpa using starts
  induction pattern generalizing cursor next front other with
  | nothing =>
    cases way
    rw [empty starts]
    rfl
  | one accepts => exact facing_of_one way starts other
  | seq first second one two =>
    rw [isLocal,Bool.and_eq_true] at simple
    obtain ⟨middle,way,others⟩ := way
    obtain ⟨early,begins,_⟩ := exists_front way
    obtain ⟨late,goes,_⟩ := exists_front others
    obtain ⟨rfl,head⟩ := front_through starts begins goes same
    have first := one simple.1 way begins head
    rw [← List.append_assoc] at first
    exact ⟨_,first,two simple.2 others goes same⟩
  | either first second one two =>
    rw [isLocal,Bool.and_eq_true] at simple
    rcases way with way | way
    · exact .inl (one simple.1 way starts same)
    · exact .inr (two simple.2 way starts same)
  | longest body =>
    cases body with
    | one accepts =>
      change ReflTransGen (one accepts).Reaches _ _
      induction (way : ReflTransGen _ cursor next) using ReflTransGen.head_induction_on
        generalizing front with
      | refl =>
        rw [empty starts]
        exact .refl
      | head step others ih =>
        obtain ⟨early,begins,_⟩ := exists_front step
        obtain ⟨late,goes,_⟩ := @exists_front (longest (one accepts)) _ _ others
        obtain ⟨rfl,head⟩ := front_through starts begins goes same
        rw [List.append_assoc]
        exact .head (facing_of_one step begins _) (ih goes)
    | _ => cases simple
  | border =>
    obtain ⟨here,rfl⟩ := way
    rw [empty starts]
    refine ⟨?_,rfl⟩
    rw [Cursor.atBorder] at here ⊢
    rw [← here]
    exact congrArg (fun head : Option Char => next.before.any Text.isWord != head.any Text.isWord) same
  | capture index body ih =>
    obtain ⟨stop,way,rfl⟩ := way
    obtain ⟨read,begins,reached⟩ := exists_front way
    obtain rfl : front = read := List.append_cancel_right (starts.symm.trans begins)
    refine ⟨_,ih simple way begins same,?_⟩
    simp [Cursor.facing,Cursor.hold,begins,reached]
  | upTo => cases simple
  | many => cases simple
  | shortest => cases simple
  | notAhead => cases simple

theorem mem_places_of_steps {accepts : Char → Bool}
    (steps : ReflTransGen (one accepts).Reaches cursor next) :
    next ∈ places (fun place => (one accepts).run place some) cursor.rest cursor [] := by
  have here (cursor : Cursor) (left : List Char) :
      cursor ∈ places (fun place => (one accepts).run place some) left cursor [] := by
    cases left with
    | nil => exact List.mem_singleton_self cursor
    | cons c left =>
      rw [places_cons]
      split
      · exact List.mem_singleton_self cursor
      · rw [places_eq]
        simp
  induction steps using ReflTransGen.head_induction_on with
  | refl => exact here next next.rest
  | head step _ ih =>
    obtain ⟨c,rest,starts,accepted,rfl⟩ := step
    have moved := @takes_one _ accepts c rest starts accepted _ some _ rfl
    rw [Cursor.rest_past [c] starts] at ih
    rw [starts,places_cons,moved]
    dsimp only
    rw [places_eq]
    exact List.mem_append_left _ ih

/-- Where there is a way from which it goes on, a run succeeds. -/
theorem isSome_run (simple : pattern.isLocal = true) (way : pattern.Reaches cursor next) {α : Type}
    {go : Cursor → Option α} (goes : (go next).isSome = true) :
    (pattern.run cursor go).isSome = true := by
  induction pattern generalizing cursor next α go with
  | nothing =>
    cases way
    exact goes
  | one accepts =>
    obtain ⟨c,rest,starts,accepted,rfl⟩ := way
    obtain ⟨result,goes⟩ := Option.isSome_iff_exists.mp goes
    rw [takes_one starts accepted goes]
    rfl
  | seq first second one two =>
    rw [isLocal,Bool.and_eq_true] at simple
    obtain ⟨middle,way,others⟩ := way
    exact one simple.1 way (two simple.2 others goes)
  | either first second one two =>
    rw [isLocal,Bool.and_eq_true] at simple
    rw [run_either]
    split
    · rfl
    · next fails =>
      rcases way with way | way
      · have found := one simple.1 way goes
        rw [fails] at found
        cases found
      · exact two simple.2 way goes
  | longest body =>
    cases body with
    | one accepts =>
      rw [run_longest,List.findSome?_isSome_iff]
      exact ⟨next,mem_places_of_steps way,goes⟩
    | _ => cases simple
  | border =>
    obtain ⟨here,rfl⟩ := way
    rw [run_border,if_pos here]
    exact goes
  | capture index body ih =>
    obtain ⟨stop,way,rfl⟩ := way
    exact ih simple way goes
  | upTo => cases simple
  | many => cases simple
  | shortest => cases simple
  | notAhead => cases simple

section Searches
variable {one two : List Char} {found : Match}

/-- A match is not touched by a place at which the texts differ. -/
def Kept (one two : List Char) (found : Match) : Prop :=
  ∀ i ≤ found.stop, found.start ≤ i + 1 → one[i]? = two[i]?

instance (one two : List Char) (found : Match) : Decidable (Kept one two found) :=
  inferInstanceAs (Decidable (∀ i ≤ found.stop, found.start ≤ i + 1 → one[i]? = two[i]?))

theorem Kept.symm (kept : Kept one two found) : Kept two one found :=
  fun i high low => (kept i high low).symm

theorem found_in_place (searched : pattern.search one = some found) : ∃ before rest,
    one = before ++ (found.text ++ rest) ∧ before.length = found.start ∧
      found.stop = found.start + found.text.length ∧
      pattern.matchAt before.getLast? found.start (found.text ++ rest) = some found := by
  obtain ⟨before,back,rfl,here⟩ := matchAt_of_searchFrom searched
  rw [Nat.zero_add,Option.or_none] at here
  obtain ⟨start,stop,rest,rfl⟩ := extent_of_matchAt here
  rw [← start] at stop here
  exact ⟨before,rest,rfl,start.symm,stop,here⟩

/-- What is kept stands in the other text too, between the same characters. -/
theorem Kept.stands (kept : Kept one two found) {before rest : List Char}
    (whole : one = before ++ (found.text ++ rest)) (length : before.length = found.start)
    (stop : found.stop = found.start + found.text.length) : ∃ front back,
      two = front ++ (found.text ++ back) ∧ front.length = found.start ∧
        front.getLast? = before.getLast? ∧ back.head? = rest.head? := by
  have inside : Text.slice two found.start found.stop = found.text := by
    rw [← @Text.slice_part one _ _ _ _ _ whole length stop.symm]
    exact Text.slice_congr fun i low high => (kept i (by omega) (by omega)).symm
  have behind : one[found.stop]? = rest.head? := by
    rw [whole,List.getElem?_append_right (by omega),List.getElem?_append_right (by omega),
      List.head?_eq_getElem?]
    congr 1
    omega
  have ahead : (two.drop found.stop).head? = rest.head? := by
    rw [List.head?_drop,← kept found.stop (Nat.le_refl _) (by omega),behind]
  have shape : two.drop found.start = found.text ++ two.drop found.stop := by
    rw [← inside,Text.slice,List.drop_take,stop,← List.drop_drop,Nat.add_sub_cancel_left,
      List.take_append_drop]
  have last : (two.take found.start).length = found.start ∧
      (two.take found.start).getLast? = before.getLast? := by
    rcases List.eq_nil_or_concat' before with rfl | ⟨before,c,rfl⟩
    · rw [← length]
      exact ⟨rfl,rfl⟩
    · rw [List.length_append,List.length_singleton] at length
      have here : one[before.length]? = some c := by simp [whole]
      rw [kept before.length (by omega) (by omega)] at here
      have size : before.length < two.length := (List.getElem?_eq_some_iff.mp here).1
      rw [← length,List.getLast?_concat,List.length_take,Nat.min_eq_left size,
        List.getLast?_eq_getElem?,List.length_take,Nat.min_eq_left size,← here]
      exact ⟨rfl,List.getElem?_take_of_lt (Nat.lt_succ_self _)⟩
  refine ⟨two.take found.start,two.drop found.stop,?_,last.1,last.2,ahead⟩
  rw [← shape,List.take_append_drop]

/-- A search finds something there, or before, in a text that keeps what is found. -/
theorem Kept.search (kept : Kept one two found) (simple : pattern.isLocal = true)
    (searched : pattern.search one = some found) :
    ∃ other, pattern.search two = some other ∧ other.start ≤ found.start := by
  obtain ⟨before,rest,whole,length,stop,here⟩ := found_in_place searched
  obtain ⟨front,back,rfl,same,last,head⟩ := kept.stands whole length stop
  obtain ⟨next,way,shape⟩ := reaches_of_matchAt here
  have starts : found.text ++ rest = found.text ++ next.rest := by
    obtain ⟨read,begins,reached⟩ := exists_front way
    have ends : found.stop = next.position := congrArg Match.stop shape
    have size : read.length = found.text.length := by
      dsimp only at reached
      omega
    obtain ⟨same,behind⟩ := List.append_inj begins size.symm
    rw [behind]
  have again := @isSome_run _ _ _ simple (reaches_facing simple way starts
    (head.trans (congrArg List.head? (List.append_cancel_left starts)))) _ some rfl
  obtain ⟨result,ran⟩ := Option.isSome_iff_exists.mp again
  obtain ⟨other,matched⟩ : ∃ other, pattern.matchAt (front.getLast?.or none) (0 + front.length)
      (found.text ++ back) = some other := by
    rw [Nat.zero_add,Option.or_none,last,same]
    exact ⟨_,congrArg (Option.map _) ran⟩
  obtain ⟨first,searched,start⟩ := exists_searchFrom matched
  exact ⟨first,searched,by omega⟩

/-- Searches in two texts that keep what is found in either find it at the same place. -/
theorem start_of_kept (simple : pattern.isLocal = true)
    (first : ∀ found ∈ pattern.search one, Kept one two found)
    (second : ∀ found ∈ pattern.search two, Kept one two found) :
    Option.Rel (fun found other => found.start = other.start) (pattern.search one)
      (pattern.search two) := by
  cases here : pattern.search one with
  | none =>
    cases there : pattern.search two with
    | none => exact .none
    | some other =>
      obtain ⟨found,searched,_⟩ := (second other there).symm.search simple there
      rw [here] at searched
      cases searched
  | some found =>
    obtain ⟨other,there,low⟩ := (first found here).search simple here
    obtain ⟨again,searched,high⟩ := (second other there).symm.search simple there
    rw [here] at searched
    cases searched
    rw [there]
    exact .some (Nat.le_antisymm high low)

end Searches

end Pattern

end JavaAtlas
