import JavaAtlas.Java.AnnotationUse
import JavaAtlas.Java.Header
import JavaAtlas.Proofs.Searching
import Mathlib.Data.List.TakeWhile

/-! Extents of annotations. A match is a mark, a name and, where the next parenthesis is answered,
all up to the first closing one; where such a text stands, it is what is matched. -/
namespace JavaAtlas.AnnotationUse
open Pattern

theorem hold_of_spells {cursor next : Cursor} {text : List Char} (spells : cursor.Spells text next)
    (index : Nat) : next.hold index cursor.position
      (cursor.rest.take (next.position - cursor.position)) =
        (cursor.past text).hold index cursor.position text := by
  obtain ⟨starts,rfl⟩ := spells
  rw [starts]
  simp [Cursor.past]

/-- What is matched of parentheses reaches up to the first closing one. -/
theorem brackets_of_reaches {cursor stop : Cursor}
    (way : (sequence [char '(',capture 2 (longest (one (· != ')'))),char ')']).Reaches cursor stop) :
    ∃ part, ')' ∉ part ∧ cursor.rest = '(' :: (part ++ ')' :: stop.rest) ∧
      stop = (((cursor.past ['(']).past part).hold 2 (cursor.past ['(']).position part).past [')'] := by
  obtain ⟨_,opened,_,⟨inner,content,rfl⟩,closed⟩ := way
  obtain ⟨_,opening,begins,rfl⟩ := spells_of_one opened
  cases beq_iff_eq.mp opening
  have covered : (longest (one (· != ')'))).Over fun c => c ≠ ')' := fun c => bne_iff_ne.mp
  obtain ⟨part,unclosed,inside⟩ := covered.spells rfl content
  rw [hold_of_spells inside] at closed
  obtain ⟨filled,rfl⟩ := inside
  obtain ⟨_,closing,ends,rfl⟩ := spells_of_one closed
  cases beq_iff_eq.mp closing
  exact ⟨part,fun member => unclosed _ member rfl,begins.trans (congrArg ('(' :: ·)
    (filled.trans (congrArg (part ++ ·) ends))),rfl⟩

theorem fails_brackets {cursor : Cursor} (unanswered : ∀ more, cursor.rest = '(' :: more → ')' ∉ more) :
    (sequence [char '(',capture 2 (longest (one (· != ')'))),char ')']).Fails cursor := by
  intro α go
  rw [Option.eq_none_iff_forall_ne_some]
  intro result ran
  obtain ⟨stop,way,_⟩ := reaches_of_run ran
  obtain ⟨part,_,opens,_⟩ := brackets_of_reaches way
  exact unanswered _ opens (by simp)

/-- What a match of an annotation is made of: the name, and what stands in its parentheses, if it has
any. -/
structure Extent where
  name : List Char
  inside : Option (List Char) := none
  named : name ≠ []
  letters : ∀ c ∈ name, Header.isNameChar c = true
  unclosed : ∀ part, inside = some part → ')' ∉ part

namespace Extent
variable (extent : Extent) {border : Option Char} {position : Nat} {rest : List Char}

def brackets (inside : Option (List Char)) : List Char :=
  inside.elim [] fun part => '(' :: (part ++ [')'])

def text : List Char := '@' :: (extent.name ++ brackets extent.inside)

theorem length_bracketed {part : List Char} (arguments : extent.inside = some part) :
    extent.text.length = extent.name.length + part.length + 3 := by
  simp only [text,arguments,brackets,Option.elim_some,List.length_cons,List.length_append,
    List.length_nil]
  omega

def found (position : Nat) : Match :=
  let name : Nat × Capture :=
    (1,⟨position + 1,position + 1 + extent.name.length,extent.name⟩)
  let start := position + extent.name.length + 2
  ⟨position,position + extent.text.length,extent.text,
    extent.inside.elim [name] fun part => [(2,⟨start,start + part.length,part⟩),name]⟩

/-- Where the match ends, by the cursor. -/
def reached (start : Cursor) : Cursor :=
  let name := start.past ['@']
  let named := (name.past extent.name).hold 1 name.position extent.name
  extent.inside.elim named fun part =>
    let arguments := named.past ['(']
    ((arguments.past part).hold 2 arguments.position part).past [')']

theorem found_reached (position : Nat) (border : Option Char) (rest : List Char) :
    let stop := extent.reached ⟨position,border,extent.text ++ rest,[]⟩
    (⟨position,stop.position,(extent.text ++ rest).take (stop.position - position),stop.captures⟩ :
      Match) = extent.found position := by
  have length : (extent.reached ⟨position,border,extent.text ++ rest,[]⟩).position =
      position + extent.text.length := by
    unfold reached text brackets
    cases extent.inside <;> simp [Cursor.past,Cursor.hold] <;> omega
  dsimp only
  rw [length,Nat.add_sub_cancel_left,List.take_left]
  unfold found reached
  cases extent.inside with
  | none => simp [Cursor.past,Cursor.hold]
  | some part =>
    simp [Cursor.past,Cursor.hold]
    omega

/-- What follows does not carry the annotation on: neither a letter nor parentheses that are closed. -/
def Closes (rest : List Char) : Prop :=
  extent.inside = none → (∀ c, rest.head? = some c → Header.isNameChar c = false) ∧
    ∀ more, rest = '(' :: more → ')' ∉ more

theorem takes {start : Cursor} (starts : start.rest = extent.text ++ rest)
    (closes : extent.Closes rest) : pattern.Takes start (extent.reached start) := by
  unfold text at starts
  rw [List.cons_append,List.append_assoc] at starts
  have name := Cursor.rest_past ['@'] starts
  have after := Cursor.rest_past extent.name name
  have taken (ends : ∀ c, (brackets extent.inside ++ rest).head? = some c →
      Header.isNameChar c = false) :=
    (takes_longest1_one name extent.named extent.letters ends).capture name 1
  refine .seq (takes_one starts rfl) ?_
  unfold reached
  cases arguments : extent.inside with
  | none =>
    rw [arguments] at after taken
    obtain ⟨ends,unanswered⟩ := closes arguments
    refine .seq (taken ends) (takes_optional (fails_brackets ?_))
    intro more opens
    exact unanswered more (after.symm.trans opens)
  | some part =>
    have opening : brackets (some part) ++ rest = '(' :: (part ++ ')' :: rest) := by simp [brackets]
    rw [arguments,opening] at after taken
    let named := ((start.past ['@']).past extent.name).hold 1 (start.past ['@']).position extent.name
    have inner : (named.past ['(']).rest = part ++ ')' :: rest := Cursor.rest_past ['('] after
    have close := Cursor.rest_past part inner
    have solid : ∀ c ∈ part, (c != ')') = true := by
      intro c member
      rw [bne_iff_ne]
      rintro rfl
      exact extent.unclosed part arguments member
    have content := (takes_longest_one inner solid (by simp)).capture inner 2
    have opened : (char '(').Takes named (named.past ['(']) := takes_one after rfl
    let held := ((named.past ['(']).past part).hold 2 (named.past ['(']).position part
    have closed : (char ')').Takes held (held.past [')']) := takes_one close rfl
    exact .seq (taken (by simp +decide)) (.left (opened.seq (content.seq closed)) _)

/-- An annotation is matched where it stands, if what follows does not carry it on. -/
theorem matchAt_closing (closes : extent.Closes rest) (border : Option Char) (position : Nat) :
    pattern.matchAt border position (extent.text ++ rest) = some (extent.found position) := by
  rw [matchAt_of_takes (extent.takes rfl closes),extent.found_reached]

theorem matchAt_text (apart : ∀ c, rest.head? = some c → Header.isNameChar c = false ∧ c ≠ '(')
    (border : Option Char) (position : Nat) :
    pattern.matchAt border position (extent.text ++ rest) = some (extent.found position) := by
  refine extent.matchAt_closing (fun _ => ⟨fun c head => (apart c head).1,?_⟩) border position
  rintro more rfl
  exact absurd rfl (apart '(' rfl).2

end Extent

/-- Whatever is matched is made up so. -/
theorem exists_extent {border : Option Char} {position : Nat} {rest : List Char} {found : Match}
    (matched : pattern.matchAt border position rest = some found) :
    ∃ extent : Extent, found = extent.found position ∧ ∃ more, rest = extent.text ++ more := by
  obtain ⟨stop,way,rfl⟩ := reaches_of_matchAt matched
  obtain ⟨_,marked,_,⟨named,naming,rfl⟩,brackets⟩ := way
  obtain ⟨_,mark,starts,rfl⟩ := spells_of_one marked
  cases beq_iff_eq.mp mark
  obtain ⟨name,nonempty,letters,spells⟩ := spells_of_longest1 naming
  rw [hold_of_spells spells] at brackets
  obtain ⟨further,rfl⟩ := spells
  have whole {extent : Extent} (shape : rest = extent.text ++ stop.rest)
      (reached : stop = extent.reached ⟨position,border,rest,[]⟩) :
      ∃ extent : Extent, (⟨position,stop.position,rest.take (stop.position - position),
        stop.captures⟩ : Match) = extent.found position ∧ ∃ more, rest = extent.text ++ more := by
    refine ⟨extent,?_,stop.rest,shape⟩
    have same := extent.found_reached position border stop.rest
    rw [← shape,← reached] at same
    exact same
  rcases brackets with way | rfl
  · obtain ⟨part,unclosed,begins,reached⟩ := brackets_of_reaches way
    refine @whole ⟨name,some part,nonempty,letters,?_⟩ ?_ reached
    · rintro _ ⟨⟩
      exact unclosed
    · have shape := starts.trans (congrArg ('@' :: ·) (further.trans (congrArg (name ++ ·) begins)))
      exact shape.trans (by simp [Extent.text,Extent.brackets])
  · refine @whole ⟨name,none,nonempty,letters,nofun⟩ ?_ rfl
    have shape := starts.trans (congrArg ('@' :: ·) further)
    exact shape.trans (by simp [Extent.text,Extent.brackets,Cursor.hold])

/-- Where an annotation begins one is written that is not carried on. -/
theorem exists_closing (extent : Extent) (more : List Char) : ∃ (other : Extent) (rest : List Char),
    extent.text ++ more = other.text ++ rest ∧ other.Closes rest := by
  let behind := extent.name ++ (Extent.brackets extent.inside ++ more)
  let name := behind.takeWhile Header.isNameChar
  let tail := behind.dropWhile Header.isNameChar
  have whole : extent.text ++ more = '@' :: (name ++ tail) := by
    rw [List.takeWhile_append_dropWhile,Extent.text,List.cons_append,List.append_assoc]
  have letters : ∀ c ∈ name, Header.isNameChar c = true := fun c member =>
    List.mem_takeWhile_imp member
  have named : name ≠ [] := by
    have front : name = extent.name ++ _ := List.takeWhile_append_of_pos extent.letters
    rw [front]
    exact fun empty => extent.named (List.append_eq_nil_iff.mp empty).1
  by_cases answered : ∃ inner, tail = '(' :: inner ∧ ')' ∈ inner
  · obtain ⟨inner,opens,closing⟩ := answered
    obtain ⟨part,rest,rfl,unclosed⟩ := List.eq_append_cons_of_mem closing
    refine ⟨⟨name,some part,named,letters,?_⟩,rest,?_,nofun⟩
    · rintro _ ⟨⟩
      exact unclosed
    · rw [whole,opens]
      simp [Extent.text,Extent.brackets]
  · refine ⟨⟨name,none,named,letters,nofun⟩,tail,?_,fun _ => ⟨?_,?_⟩⟩
    · rw [whole]
      simp [Extent.text,Extent.brackets]
    · intro c head
      have other := List.head?_dropWhile_not Header.isNameChar behind
      rwa [head] at other
    · exact fun inner opens closing => answered ⟨inner,opens,closing⟩

/-- What is matched is what is written there and not carried on. -/
theorem matchAt_iff {border : Option Char} {position : Nat} {text : List Char} {found : Match} :
    pattern.matchAt border position text = some found ↔ ∃ (extent : Extent) (rest : List Char),
      text = extent.text ++ rest ∧ extent.Closes rest ∧ found = extent.found position := by
  constructor
  · intro matched
    obtain ⟨extent,_,more,rfl⟩ := exists_extent matched
    obtain ⟨other,rest,shape,closes⟩ := exists_closing extent more
    rw [shape,other.matchAt_closing closes] at matched
    cases matched
    exact ⟨other,rest,shape,closes,rfl⟩
  · rintro ⟨extent,rest,rfl,closes,rfl⟩
    exact extent.matchAt_closing closes border position

section Last
variable {c : Char} (apart : Header.isNameChar c = false) (other : c ≠ '(' ∧ c ≠ ')')
include apart other

theorem Extent.not_last (extent : Extent) (front : List Char) : extent.text ≠ front ++ [c] := by
  intro whole
  have last := congrArg List.getLast? whole
  rw [List.getLast?_concat] at last
  cases arguments : extent.inside with
  | none =>
    obtain ⟨name,letter,shape⟩ := (List.eq_nil_or_concat' extent.name).resolve_left extent.named
    have letters := extent.letters letter (by rw [shape]; simp)
    have same : extent.text = ('@' :: name) ++ [letter] := by simp [text,arguments,brackets,shape]
    rw [same,List.getLast?_concat] at last
    cases last
    rw [apart] at letters
    cases letters
  | some part =>
    have same : extent.text = ('@' :: (extent.name ++ '(' :: part)) ++ [')'] := by
      simp [text,arguments,brackets]
    rw [same,List.getLast?_concat] at last
    cases last
    exact other.2 rfl

theorem Extent.closes_concat {extent : Extent} {rest : List Char} :
    extent.Closes (rest ++ [c]) ↔ extent.Closes rest := by
  refine imp_congr_right fun _ => ?_
  cases rest with
  | nil => simp [apart,other.1]
  | cons d rest => simp [Ne.symm other.2]

/-- A last character that no annotation can hold there changes nothing. -/
theorem matchAt_concat (border : Option Char) (position : Nat) (text : List Char) :
    pattern.matchAt border position (text ++ [c]) = pattern.matchAt border position text := by
  ext found
  rw [matchAt_iff,matchAt_iff]
  constructor
  · rintro ⟨extent,rest,whole,closes,rfl⟩
    rcases List.eq_nil_or_concat' rest with rfl | ⟨rest,last,rfl⟩
    · rw [List.append_nil] at whole
      exact absurd whole.symm (extent.not_last apart other text)
    · rw [← List.append_assoc] at whole
      obtain ⟨rfl,same⟩ := List.append_inj' whole rfl
      cases same
      exact ⟨extent,rest,rfl,(Extent.closes_concat apart other).mp closes,rfl⟩
  · rintro ⟨extent,rest,rfl,closes,rfl⟩
    exact ⟨extent,rest ++ [c],List.append_assoc _ _ _,(Extent.closes_concat apart other).mpr closes,rfl⟩

end Last

/-- All that is found in a text is made up so, and stands there. -/
theorem exists_standing {text : List Char} {found : Match} (member : found ∈ pattern.findAll text) :
    ∃ (extent : Extent) (front more : List Char), found = extent.found front.length ∧
      text = front ++ (extent.text ++ more) := by
  obtain ⟨border,matched⟩ := matchAt_of_mem_findAll member
  obtain ⟨extent,same,more,starts⟩ := exists_extent matched
  have length : (text.take found.start).length = found.start := by
    rw [List.length_take,Nat.min_eq_left]
    by_contra beyond
    rw [List.drop_eq_nil_of_le (by omega)] at starts
    cases starts
  refine ⟨extent,text.take found.start,more,by rwa [length],?_⟩
  rw [← starts,List.take_append_drop]

end JavaAtlas.AnnotationUse
