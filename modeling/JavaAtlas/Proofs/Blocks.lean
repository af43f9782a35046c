import JavaAtlas.Java.Method
import JavaAtlas.Proofs.Lexing
import JavaAtlas.Proofs.Searching

/-! Documentation comments and the blocks found by their marks. A block may begin wherever the
opening mark stands, in a literal or in the middle of another comment; at the beginning of a
documentation comment it is the comment, and within one it ends where the comment does. -/
namespace JavaAtlas

namespace Pattern
variable {α : Type} {go : Cursor → Option α} {cursor : Cursor} {mark inside more : List Char}

/-- As few characters as lead to a mark without which there is no going on. -/
theorem run_shortest_any {result : α} (starts : cursor.rest = inside ++ (mark ++ more))
    (first : ¬mark <:+: inside ++ mark.dropLast)
    (needs : ∀ place : Cursor, ¬mark <+: place.rest → go place = none)
    (goes : go (cursor.past inside) = some result) :
    (shortest (one fun _ => true)).run cursor go = some result := by
  rw [run_shortest]
  induction inside generalizing cursor with
  | nil =>
    rw [Cursor.past_nil] at goes
    cases cursor.rest with
    | nil => exact goes
    | cons c rest => rw [nearest,goes]
  | cons c inside ih =>
    have here : go cursor = none := by
      apply needs
      rw [starts]
      exact Lexical.not_prefix_of_first first more
    have moved : (one fun _ => true).run cursor some = some (cursor.past [c]) :=
      takes_one starts rfl rfl
    have rest : (cursor.past [c]).rest = inside ++ (mark ++ more) := Cursor.rest_past [c] starts
    rw [starts,List.cons_append,nearest,here]
    simp only [moved]
    rw [← rest]
    rw [List.cons_append,List.infix_cons_iff,not_or] at first
    exact ih rest first.2 (by rw [Cursor.past_past]; exact goes)

theorem infix_of_shortest_any {result : α}
    (needs : ∀ place : Cursor, ¬mark <+: place.rest → go place = none)
    (ran : (shortest (one fun _ => true)).run cursor go = some result) : mark <:+: cursor.rest := by
  obtain ⟨next,goes,⟨front,_,starts,_⟩,_⟩ := (over_true _).reads ran
  by_contra missing
  rw [starts] at missing
  rw [needs next fun begins => missing (begins.isInfix.trans (List.suffix_append _ _).isInfix)] at goes
  cases goes

end Pattern

namespace Lexical

def docOpening : List Char := ['/','*','*']

/-- The text begins with the mark of a documentation comment, and `inside` stands between it and
the next closing mark. -/
structure Opens (text inside : List Char) : Prop where
  begins : ∃ rest, text = docOpening ++ (inside ++ (commentClosing ++ rest))
  apart : inside.head? ≠ some '/'
  first : ¬commentClosing <:+: inside ++ ['*']

/-- A comment that documents what follows it; the shortest block comment begins like one. -/
def isDocumentation (text : List Char) : Bool :=
  docOpening.isPrefixOf text && text != ['/','*','*','/']

/-- A documentation comment without its marks. -/
def interior (text : List Char) : List Char := (text.drop 3).take (text.length - 5)

/-- The token as a documentation comment. -/
def documentation? : Nat × Token → Option (Nat × List Char)
  | (place,.comment text) => if isDocumentation text then some (place,text) else none
  | _ => none

/-- The comments among the tokens of a text that document, each with its place. -/
def documentation (content : List Char) : List (Nat × List Char) :=
  (placed 0 (tokens content)).filterMap documentation?

theorem documentation?_eq_some {entry : Nat × Token} {comment : Nat × List Char} :
    documentation? entry = some comment ↔
      entry = (comment.1,.comment comment.2) ∧ isDocumentation comment.2 = true := by
  constructor
  · intro found
    unfold documentation? at found
    split at found
    · split at found
      · next documents =>
        cases found
        exact ⟨rfl,documents⟩
      · cases found
    · cases found
  · rintro ⟨rfl,documents⟩
    rw [documentation?,if_pos documents]

section Comments
variable {content text inside : List Char} {place start : Nat}

theorem mem_documentation : (place,text) ∈ documentation content ↔
    (place,.comment text) ∈ placed 0 (tokens content) ∧ isDocumentation text = true := by
  rw [documentation,List.mem_filterMap]
  constructor
  · rintro ⟨entry,member,found⟩
    obtain ⟨rfl,documents⟩ := documentation?_eq_some.mp found
    exact ⟨member,documents⟩
  · rintro ⟨member,documents⟩
    exact ⟨_,member,documentation?_eq_some.mpr ⟨rfl,documents⟩⟩

theorem pairwise_documentation (content : List Char) :
    (documentation content).Pairwise fun first second => first.1 + first.2.length ≤ second.1 := by
  refine List.Pairwise.filterMap _ ?_ (pairwise_placed 0 (tokens content)).2
  intro first second apart one here two there
  obtain ⟨rfl,_⟩ := documentation?_eq_some.mp here
  obtain ⟨rfl,_⟩ := documentation?_eq_some.mp there
  exact apart

/-- Where the next closing mark behind an opening one is. -/
theorem Opens.closes (opens : Opens (content.drop start) inside) :
    pastMark commentClosing (content.drop (start + 3)) (start + 3) = start + (inside.length + 5) := by
  obtain ⟨⟨rest,shape⟩,_,first⟩ := opens
  have behind : content.drop (start + 3) = inside ++ (commentClosing ++ rest) := by
    rw [← List.drop_drop,shape]
    rfl
  rw [behind,pastMark_first first]
  change _ + 2 = _
  omega

theorem Opens.length_le (opens : Opens (content.drop start) inside) :
    start + (inside.length + 5) ≤ content.length := by
  obtain ⟨⟨rest,shape⟩,_,_⟩ := opens
  have length := congrArg List.length shape
  simp only [List.length_drop,List.length_append,docOpening,commentClosing,List.length_cons,
    List.length_nil] at length
  omega

theorem Opens.unique {other : List Char} (opens : Opens (content.drop start) inside)
    (again : Opens (content.drop start) other) : inside = other := by
  have same := opens.closes.symm.trans again.closes
  obtain ⟨⟨rest,shape⟩,_,_⟩ := opens
  obtain ⟨⟨more,second⟩,_,_⟩ := again
  exact (List.append_inj (List.append_cancel_left (shape.symm.trans second)) (by omega)).1

theorem length_documentation (inside : List Char) :
    (docOpening ++ (inside ++ commentClosing)).length = inside.length + 5 := by
  simp [docOpening,commentClosing]

theorem interior_documentation (inside : List Char) :
    interior (docOpening ++ (inside ++ commentClosing)) = inside := by
  rw [interior,length_documentation]
  simp [docOpening]

/-- A documentation comment ends with the next closing mark behind its first two characters. Left
open, it ends with the text. -/
theorem closes_of_documentation (member : (place,text) ∈ documentation content) :
    pastMark commentClosing (content.drop (place + 2)) (place + 2) = place + text.length ∧
      ((place + text.length = content.length ∧ ¬commentClosing <:+: content.drop (place + 2)) ∨
        ∃ inside, text = docOpening ++ (inside ++ commentClosing) ∧
          Opens (content.drop place) inside) := by
  obtain ⟨token,documents⟩ := mem_documentation.mp member
  obtain ⟨before,rest,shape,here,whole⟩ := (lexes_tokens content).token_at token
  change content = before ++ (text ++ rest) at shape
  rw [Nat.zero_add] at here
  rw [isDocumentation,Bool.and_eq_true,List.isPrefixOf_iff_prefix,bne_iff_ne] at documents
  obtain ⟨begins,proper⟩ := documents
  cases whole with
  | line => exact absurd (List.cons_prefix_cons.mp (List.cons_prefix_cons.mp begins).2).1 (by decide)
  | @block body rest first =>
    have behind : content.drop (place + 2) = body ++ (commentClosing ++ rest) := by
      rw [shape,here,List.drop_length_add_append]
      simp [commentClosing]
    have ends : pastMark commentClosing (content.drop (place + 2)) (place + 2) =
        place + ('/' :: '*' :: (body ++ commentClosing)).length := by
      rw [behind,pastMark_first first]
      simp only [commentClosing,List.length_cons,List.length_append,List.length_nil]
      omega
    obtain ⟨inside,rfl⟩ : ∃ inside, body = '*' :: inside := by
      have star := (List.cons_prefix_cons.mp (List.cons_prefix_cons.mp begins).2).2
      cases body with
      | nil => exact absurd rfl proper
      | cons c inside => exact ⟨inside,by rw [(List.cons_prefix_cons.mp star).1]⟩
    rw [List.cons_append,List.infix_cons_iff,not_or] at first
    refine ⟨ends,.inr ⟨inside,rfl,⟨rest,?_⟩,?_,first.2⟩⟩
    · rw [shape,here,List.drop_left]
      simp [docOpening,commentClosing]
    · intro slash
      obtain ⟨after,rfl⟩ := List.head?_eq_some_iff.mp slash
      exact first.1 ⟨after ++ ['*'],rfl⟩
  | @openBlock body missing =>
    have behind : content.drop (place + 2) = body := by
      rw [shape,here,List.drop_length_add_append]
      simp
    have ends : place + ('/' :: '*' :: body).length = content.length := by
      rw [shape,here]
      simp
    refine ⟨?_,.inl ⟨ends,behind ▸ missing⟩⟩
    rw [behind,pastMark_missing missing]
    simp only [List.length_cons]
    omega

theorem Opens.getElem? (opens : Opens (content.drop start) inside) (i : Nat) :
    ∃ rest, content[start + i]? = (docOpening ++ (inside ++ (commentClosing ++ rest)))[i]? := by
  obtain ⟨⟨rest,shape⟩,_,_⟩ := opens
  exact ⟨rest,by rw [← shape,List.getElem?_drop]⟩

theorem Opens.star (opens : Opens (content.drop start) inside) : content[start + 2]? = some '*' := by
  obtain ⟨rest,same⟩ := opens.getElem? 2
  exact same

theorem Opens.noSlash (opens : Opens (content.drop start) inside) :
    content[start + 3]? ≠ some '/' := by
  obtain ⟨rest,same⟩ := opens.getElem? 3
  have apart := opens.apart
  rw [same]
  cases inside with
  | nil => simp [docOpening,commentClosing]
  | cons c inside => simpa [docOpening] using apart

theorem Opens.slash (opens : Opens (content.drop start) inside) :
    content[start + (inside.length + 4)]? = some '/' := by
  obtain ⟨rest,same⟩ := opens.getElem? (inside.length + 4)
  rw [same,docOpening,commentClosing]
  simp

/-- An opening mark within a documentation comment, its own one or a later one, meets the closing
mark of the comment. -/
theorem Opens.ends_documentation (opens : Opens (content.drop start) inside)
    (member : (place,text) ∈ documentation content) (after : place ≤ start)
    (within : start + 3 ≤ place + text.length) :
    start + (inside.length + 5) = place + text.length := by
  obtain ⟨closes,ends⟩ := closes_of_documentation member
  have length := opens.length_le
  -- The closing mark of the comment stands behind the opening one; they share no character.
  have ahead : start + 3 + 2 ≤ place + text.length := by
    rcases ends with ⟨ends,_⟩ | ⟨body,rfl,whole⟩
    · omega
    · have slash := whole.slash
      rw [length_documentation] at within ⊢
      by_contra short
      rcases (by omega : start + 2 = place + (body.length + 4) ∨
        start + 3 = place + (body.length + 4)) with same | same
      · have star := opens.star
        rw [same,slash] at star
        cases star
      · exact opens.noSlash (same ▸ slash)
  rw [← opens.closes,← closes]
  exact pastMark_later (by decide) (by omega) (by rw [closes]; exact ahead)

end Comments

end Lexical

namespace Method
open Lexical Pattern

section Blocks
variable {text inside : List Char} {before : Option Char} {position : Nat} {found : Match}

/-- The block between the marks. -/
def block (position : Nat) (text inside : List Char) : Match :=
  ⟨position,position + (inside.length + 5),text.take (inside.length + 5),
    [(1,⟨position + 3,position + 3 + inside.length,inside⟩)]⟩

theorem run_javadocPattern {α : Type} (cursor : Cursor) (go : Cursor → Option α) :
    javadocPattern.run cursor go = (literal docOpening).run cursor fun opened =>
      (notAhead (char '/')).run opened fun opened =>
        (shortest (one fun _ => true)).run opened fun stop =>
          (literal commentClosing).run (stop.hold 1 opened.position
            (opened.rest.take (stop.position - opened.position))) go := rfl

theorem fails_hold {stop : Cursor} (apart : ¬commentClosing <+: stop.rest) (start : Nat)
    (text : List Char) : (literal commentClosing).Fails (stop.hold 1 start text) :=
  @fails_literal (stop.hold 1 start text) _ apart

theorem matchAt_of_opens (opens : Opens text inside) (before : Option Char) (position : Nat) :
    javadocPattern.matchAt before position text = some (block position text inside) := by
  obtain ⟨⟨rest,rfl⟩,apart,first⟩ := opens
  let start : Cursor := ⟨position,before,docOpening ++ (inside ++ (commentClosing ++ rest)),[]⟩
  let opened := start.past docOpening
  have ahead : opened.rest = inside ++ (commentClosing ++ rest) := Cursor.rest_past docOpening rfl
  have noSlash : (char '/').Fails opened := by
    apply fails_one
    intro c head
    rw [ahead] at head
    rw [beq_eq_false_iff_ne]
    rintro rfl
    cases inside with
    | nil => cases head
    | cons => exact apart head
  have length : (opened.past inside).position - opened.position = inside.length := by
    simp [Cursor.past]
  let held := (opened.past inside).hold 1 opened.position inside
  have behind : held.rest = commentClosing ++ rest := Cursor.rest_past inside ahead
  have ran : javadocPattern.run start some = some (held.past commentClosing) := by
    rw [run_javadocPattern,run_literal rfl,run_notAhead,if_neg (by rw [noSlash]; simp)]
    apply run_shortest_any ahead first (fun _ apart => fails_hold apart _ _ _)
    rw [length,ahead,List.take_left]
    exact run_literal behind some
  have reached : (held.past commentClosing).position = position + (inside.length + 5) := by
    simp only [held,opened,start,Cursor.past,Cursor.hold,docOpening,commentClosing,List.length_cons,
      List.length_nil]
    omega
  rw [matchAt,ran,Option.map_some,reached,Nat.add_sub_cancel_left]
  rfl

theorem opens_of_matchAt (matched : javadocPattern.matchAt before position text = some found) :
    ∃ inside, Opens text inside ∧ found = block position text inside := by
  obtain ⟨stop,ran,_⟩ := Option.map_eq_some_iff.mp matched
  rw [run_javadocPattern] at ran
  obtain ⟨more,starts,ran⟩ := literal_some ran
  have ahead := Cursor.rest_past docOpening starts
  rw [run_notAhead] at ran
  split at ran
  · cases ran
  · next noSlash =>
    have closes := infix_of_shortest_any (fun _ apart => fails_hold apart _ _ _) ran
    rw [ahead] at closes
    obtain ⟨inside,rest,rfl,first⟩ := exists_first_mark (by decide) closes
    have opens : Opens text inside := by
      refine ⟨⟨rest,starts⟩,?_,first⟩
      intro slash
      obtain ⟨after,rfl⟩ := List.head?_eq_some_iff.mp slash
      have takes : (char '/').Takes _ _ := takes_one ahead rfl
      exact noSlash (by rw [@takes _ (fun _ => some ()) () rfl]; rfl)
    refine ⟨inside,opens,?_⟩
    rw [matchAt_of_opens opens] at matched
    exact (Option.some.inj matched).symm

theorem block_of_mem_findAll (member : found ∈ javadocPattern.findAll text) :
    ∃ inside, Opens (text.drop found.start) inside ∧
      found = block found.start (text.drop found.start) inside := by
  obtain ⟨before,matched⟩ := matchAt_of_mem_findAll member
  exact opens_of_matchAt matched

theorem pairwise_findAll (content : List Char) :
    (javadocPattern.findAll content).Pairwise fun first second => first.stop ≤ second.start :=
  (pairwise_findFrom javadocPattern content none 0).2

end Blocks

end Method

end JavaAtlas
