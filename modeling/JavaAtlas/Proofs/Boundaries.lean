import JavaAtlas.Proofs.Documentation
import JavaAtlas.Proofs.Indifference

/-! The nearest boundary. On the way back through a text a closing parenthesis waits for the opening
one that it answers, and while one of them waits a boundary ends nothing. So a declaration starts
behind the last boundary that has no such parenthesis behind it. In what its annotations are read
from no boundary stands outside of parentheses, but for the brace of a method's body at the end. -/
namespace JavaAtlas

namespace Lexical
open Method (Balanced)

section Parentheses
variable {text front inside rest one two : List Char}

/-- A closing parenthesis behind the text answers an opening one in it. -/
def Answered (text : List Char) : Prop :=
  ∃ before inside, text = before ++ '(' :: inside ∧ Balanced inside

/-- The text holds a closing parenthesis that answers no opening one in it. -/
def Overclosed (text : List Char) : Prop :=
  ∃ front rest, text = front ++ ')' :: rest ∧ ¬Answered front

theorem Answered.behind (answered : Answered text) (front : List Char) : Answered (front ++ text) := by
  obtain ⟨before,inside,rfl,balanced⟩ := answered
  exact ⟨front ++ before,inside,by simp,balanced⟩

theorem unmet_balanced (balanced : Balanced inside) (rest : List Char) :
    unmet (inside ++ rest) = unmet rest := by
  induction balanced generalizing rest with
  | nil => rfl
  | plain opening closing _ ih => rw [List.cons_append,unmet_plain opening closing,ih]
  | nested _ _ first second =>
    rw [List.cons_append,unmet_opening,List.append_assoc,first,List.cons_append,unmet_closing,second,
      Nat.add_sub_cancel]

theorem unmet_congr (same : unmet one = unmet two) (front : List Char) :
    unmet (front ++ one) = unmet (front ++ two) := by
  induction front with
  | nil => exact same
  | cons c front ih => rw [List.cons_append,List.cons_append,unmet,unmet,ih]

/-- No more parentheses are unmet behind what is balanced than within it. -/
theorem le_unmet_within {back : List Char} (balanced : Balanced (front ++ back)) (rest : List Char) :
    unmet rest ≤ unmet (back ++ rest) := by
  generalize shape : front ++ back = text at balanced
  have whole {text : List Char} (balanced : Balanced text) (rest : List Char) :
      unmet rest ≤ unmet (text ++ rest) := Nat.le_of_eq (unmet_balanced balanced rest).symm
  induction balanced generalizing front back rest with
  | nil =>
    rw [(List.append_eq_nil_iff.mp shape).2]
    exact Nat.le_refl _
  | plain opening closing balanced ih =>
    rcases List.append_eq_cons_iff.mp shape with ⟨rfl,rfl⟩ | ⟨others,rfl,rfl⟩
    · exact whole (.plain opening closing balanced) rest
    · exact ih rest rfl
  | @nested inside behind first second ihInside ihBehind =>
    rcases List.append_eq_cons_iff.mp shape with ⟨rfl,rfl⟩ | ⟨others,rfl,later⟩
    · exact whole (.nested first second) rest
    · rcases List.append_eq_append_iff.mp later with ⟨part,rfl,more⟩ | ⟨part,rfl,rfl⟩
      · rcases List.cons_eq_append_iff.mp more with ⟨rfl,rfl⟩ | ⟨part,rfl,rfl⟩
        · rw [List.cons_append,unmet_closing]
          exact (whole second rest).trans (Nat.le_succ _)
        · exact ihBehind rest rfl
      · have behindInside := ihInside (')' :: (behind ++ rest)) rfl
        rw [unmet_closing,unmet_balanced second] at behindInside
        rw [List.append_assoc,List.cons_append]
        exact (Nat.le_succ _).trans behindInside

/-- What is balanced leaves no parenthesis open. -/
theorem not_answered_balanced (balanced : Balanced inside) : ¬Answered inside := by
  rintro ⟨before,within,rfl,closed⟩
  -- One more closing parenthesis would be met by the open one, but behind a balanced text it is not.
  have open_ : unmet ('(' :: (within ++ [')'])) = unmet ('(' :: within) := by
    have empty := unmet_balanced closed []
    rw [List.append_nil] at empty
    rw [unmet_opening,unmet_opening,unmet_balanced closed,empty]
    rfl
  have alone := unmet_balanced balanced [')']
  rw [List.append_assoc,List.cons_append,unmet_congr open_ before,← List.append_nil (before ++ _),
    unmet_balanced balanced] at alone
  cases alone

/-- A closing parenthesis of the text has in front of it what is balanced; it is the first one that
answers none. -/
def Unopened (text : List Char) : Prop :=
  ∃ inside rest, text = inside ++ ')' :: rest ∧ Balanced inside

theorem unopened_closing (rest : List Char) : Unopened (')' :: rest) := ⟨[],rest,rfl,.nil⟩

theorem Unopened.plain {c : Char} (unopened : Unopened text) (opening : c ≠ '(') (closing : c ≠ ')') :
    Unopened (c :: text) := by
  obtain ⟨inside,rest,rfl,balanced⟩ := unopened
  exact ⟨c :: inside,rest,rfl,.plain opening closing balanced⟩

theorem Unopened.nested (unopened : Unopened rest) (balanced : Balanced inside) :
    Unopened ('(' :: (inside ++ ')' :: rest)) := by
  obtain ⟨others,more,rfl,further⟩ := unopened
  exact ⟨'(' :: (inside ++ ')' :: others),more,by simp,.nested balanced further⟩

theorem Unopened.before (unopened : Unopened text) (rest : List Char) : Unopened (text ++ rest) := by
  obtain ⟨inside,more,rfl,balanced⟩ := unopened
  exact ⟨inside,more ++ rest,by simp,balanced⟩

theorem balanced_or_unopened : ∀ {text : List Char}, ¬Answered text → Balanced text ∨ Unopened text
  | [], _ => .inl .nil
  | c :: text, free => by
    have others := balanced_or_unopened fun answered => free (answered.behind [c])
    by_cases closing : c = ')'
    · exact .inr (closing ▸ unopened_closing text)
    by_cases opening : c = '('
    · subst opening
      obtain ⟨inside,rest,rfl,balanced⟩ : Unopened text :=
        others.resolve_left fun balanced => free ⟨[],text,rfl,balanced⟩
      have further := @balanced_or_unopened rest fun answered => free (by
        simpa using answered.behind ('(' :: (inside ++ [')'])))
      rcases further with closed | unopened
      · exact .inl (.nested balanced closed)
      · exact .inr (unopened.nested balanced)
    · rcases others with balanced | unopened
      · exact .inl (.plain opening closing balanced)
      · exact .inr (unopened.plain opening closing)
termination_by text => text.length

theorem unopened_of_unmet : ∀ {text : List Char}, unmet text ≠ 0 → Unopened text
  | [], more => absurd rfl more
  | c :: text, more => by
    by_cases closing : c = ')'
    · exact closing ▸ unopened_closing text
    by_cases opening : c = '('
    · subst opening
      rw [unmet_opening] at more
      obtain ⟨inside,rest,rfl,balanced⟩ := @unopened_of_unmet text (by omega)
      rw [unmet_balanced balanced,unmet_closing,Nat.add_sub_cancel] at more
      exact (unopened_of_unmet more).nested balanced
    · rw [unmet_plain opening closing] at more
      exact (unopened_of_unmet more).plain opening closing
termination_by text => text.length

/-- A text has parentheses to be met in front of it just if it closes more than it opens. -/
theorem overclosed_iff : Overclosed text ↔ unmet text ≠ 0 := by
  constructor
  · rintro ⟨front,rest,rfl,free⟩
    have unopened : Unopened (front ++ ')' :: rest) := by
      rcases balanced_or_unopened free with balanced | unopened
      · exact ⟨front,rest,rfl,balanced⟩
      · exact unopened.before (')' :: rest)
    obtain ⟨inside,more,shape,balanced⟩ := unopened
    rw [shape,unmet_balanced balanced,unmet_closing]
    exact Nat.succ_ne_zero _
  · intro more
    obtain ⟨inside,rest,rfl,balanced⟩ := unopened_of_unmet more
    exact ⟨inside,rest,rfl,not_answered_balanced balanced⟩

theorem Overclosed.before (overclosed : Overclosed text) (rest : List Char) :
    Overclosed (text ++ rest) := by
  obtain ⟨front,more,rfl,free⟩ := overclosed
  exact ⟨front,more ++ rest,by simp,free⟩

end Parentheses

section Boundaries
variable {text one two : List Char} {stop start : Nat}

/-- Every boundary in the text has behind it a closing parenthesis that answers none behind the
boundary. -/
def Enclosed (text : List Char) : Prop :=
  ∀ front c back, text = front ++ c :: back → isBoundary c = true → Overclosed back

/-- The place in front of a stop from which no boundary stands outside of parentheses, and which is
that of the text or behind such a boundary. -/
structure Nearest (text : List Char) (stop start : Nat) : Prop where
  within : start ≤ stop
  behind : start = 0 ∨ (∃ c, text[start - 1]? = some c ∧ isBoundary c = true) ∧
    ¬Overclosed (Text.slice text start stop)
  enclosed : Enclosed (Text.slice text start stop)

theorem enclosed_plain (plain : ∀ c ∈ text, isBoundary c = false) : Enclosed text := by
  rintro front c back rfl boundary
  rw [plain c (by simp)] at boundary
  cases boundary

/-- A boundary at the end has nothing behind it that could enclose it. -/
theorem not_enclosed_concat {c : Char} (boundary : isBoundary c = true) (text : List Char) :
    ¬Enclosed (text ++ [c]) := by
  intro enclosed
  obtain ⟨front,rest,shape,_⟩ := enclosed text c [] rfl boundary
  exact List.append_ne_nil_of_right_ne_nil front (List.cons_ne_nil _ _) shape.symm

theorem Enclosed.append (first : Enclosed one) (second : Enclosed two) : Enclosed (one ++ two) := by
  intro front c back shape boundary
  rcases List.append_eq_append_iff.mp shape with ⟨part,rfl,rfl⟩ | ⟨part,rfl,more⟩
  · exact second part c back rfl boundary
  · rcases List.cons_eq_append_iff.mp more with ⟨rfl,rfl⟩ | ⟨part,rfl,rfl⟩
    · exact second [] c back rfl boundary
    · exact (first front c part rfl boundary).before two

theorem Enclosed.behind (enclosed : Enclosed (one ++ two)) : Enclosed two := by
  rintro front c back rfl boundary
  exact enclosed (one ++ front) c back (by simp) boundary

theorem enclosed_parentheses (balanced : Balanced text) : Enclosed (text ++ [')']) := by
  intro front c back shape boundary
  rcases back.eq_nil_or_concat with rfl | ⟨back,last,rfl⟩
  · obtain ⟨_,same⟩ := List.append_inj' shape rfl
    cases same
    cases boundary
  · rw [List.concat_eq_append] at shape ⊢
    rw [← List.cons_append,← List.append_assoc] at shape
    obtain ⟨rfl,same⟩ := List.append_inj' shape rfl
    cases same
    rw [List.append_cons] at balanced
    have more := le_unmet_within balanced [')']
    exact overclosed_iff.mpr (Nat.ne_of_gt more)

theorem nearest_declarationStart (text : List Char) (stop : Nat) :
    Nearest text stop (declarationStart text stop) := by
  obtain ⟨kept,passed,shape,start,behind,enclosed⟩ := declarationStart_walk text stop
  have stretch : Text.slice text kept.length stop = passed := by
    rw [Text.slice,shape,List.drop_left]
  rw [start]
  constructor
  · have length := congrArg List.length shape
    rw [List.length_append,List.length_take] at length
    omega
  · rw [stretch,overclosed_iff,not_not]
    exact behind.imp_left (congrArg List.length)
  · rw [stretch]
    intro front c back whole boundary
    exact overclosed_iff.mpr (enclosed front c back whole boundary)

/-- There is one such place. -/
theorem Nearest.le {other : Nat} (nearest : Nearest text stop start)
    (another : Nearest text stop other) : other ≤ start := by
  by_contra later
  rcases another.behind with zero | ⟨⟨c,here,boundary⟩,level⟩
  · omega
  · obtain ⟨place,rfl⟩ := Nat.exists_eq_succ_of_ne_zero (Nat.ne_zero_of_lt (Nat.lt_of_not_le later))
    rw [Nat.succ_sub_one] at here
    have between := another.within
    have cut : Text.slice text start stop =
        Text.slice text start place ++ c :: Text.slice text (place + 1) stop := by
      rw [Text.slice_join (Nat.le_of_lt_succ (Nat.lt_of_not_le later)) (Nat.le_of_succ_le between),
        Text.slice_join (Nat.le_succ place) between,Text.slice_single here]
      rfl
    exact level (nearest.enclosed _ c _ cut boundary)

theorem declarationStart_iff : declarationStart text stop = start ↔ Nearest text stop start := by
  have found := nearest_declarationStart text stop
  constructor
  · rintro rfl
    exact found
  · intro nearest
    exact Nat.le_antisymm (nearest.le found) (found.le nearest)

end Boundaries

end Lexical

namespace AnnotationUse
open Lexical

/-- A brace behind the text is part of no annotation. -/
theorem readAll_brace {text : List Char}
    (masked : maskLiterals (text ++ ['\x7b']) = maskLiterals text ++ ['\x7b']) :
    readAll (text ++ ['\x7b']) = readAll text := by
  rw [readAll_eq,masked,Pattern.findFrom_concat (matchAt_concat (by decide) (by decide)),readAll_eq]
  apply List.map_congr_left
  intro found member
  obtain ⟨extent,front,more,rfl,shape⟩ := exists_standing member
  have size := congrArg List.length shape
  rw [length_maskLiterals,List.length_append,List.length_append] at size
  rw [ofMatch_found,ofMatch_found]
  cases arguments : extent.inside with
  | none => rfl
  | some part =>
    have length := extent.length_bracketed arguments
    have within : front.length + extent.name.length + 2 + part.length ≤ text.length := by omega
    rw [Option.map_some,Option.map_some,Text.slice,List.take_append_of_le_length within]
    rfl

end AnnotationUse

namespace Method
open Lexical Pattern

theorem Shape.enclosed_declared (shape : Shape) : Enclosed shape.declared := by
  have lead : Enclosed shape.lead := enclosed_plain fun c member =>
    not_boundary (by decide) (shape.heading c member)
  have call : Enclosed shape.call := by
    apply enclosed_plain
    intro c member
    simp only [call,List.mem_append,List.mem_singleton] at member
    rcases member with letter | space | rfl
    · exact not_boundary (by decide) (shape.letters c letter)
    · rw [shape.spaced c space]
      rfl
    · rfl
  have clause : Enclosed shape.clause := enclosed_plain fun c member =>
    not_boundary (by decide) (shape.throwing c member)
  have parts : shape.declared =
      shape.lead ++ (shape.call ++ ((shape.parameters ++ [')']) ++ shape.clause)) := by
    simp [declared]
  rw [parts]
  exact lead.append (call.append ((enclosed_parentheses shape.balanced).append clause))

section Preambles
variable {content : List Char} {found : Match} {method : Method}

theorem annotations_of_made {blocks : List Match} {masked structural : List Char}
    (made : ofMatch blocks masked structural found = some method) :
    method.annotations = AnnotationUse.readAll
      (Text.slice masked (declarationStart structural (declarationOf found)) found.stop) := by
  obtain ⟨name,_,kind⟩ := Option.bind_eq_some_iff.mp made
  dsimp only at kind
  split at kind
  · cases kind
  · cases kind
    rfl

/-- A match ends with a brace, and no boundary of the declaration in front of it stands outside of
parentheses. -/
theorem enclosed_declaration {text : List Char} (member : found ∈ pattern.findAll text) :
    ∃ n, found.stop = n + 1 ∧ declarationOf found ≤ n ∧
      Enclosed (Text.slice text (declarationOf found) n) := by
  obtain ⟨shape,front,more,rfl,whole⟩ := exists_standing member
  obtain ⟨lead,declaration,parts,blanks⟩ : ∃ lead declaration, shape.declared = lead ++ declaration ∧
      shape.text.takeWhile Text.isBlank = lead := by
    rw [shape.text_eq,List.takeWhile_append]
    split
    · exact ⟨shape.declared,[],(List.append_nil _).symm,by simp [Text.isBlank]⟩
    · exact ⟨_,_,List.takeWhile_append_dropWhile.symm,rfl⟩
  have place : declarationOf (shape.found front.length) = (front ++ lead).length := by
    rw [declarationOf,Shape.found,blanks,List.length_append]
  have stop : (shape.found front.length).stop = (front ++ lead).length + declaration.length + 1 := by
    simp only [Shape.found,shape.text_eq,parts,List.length_append,List.length_singleton]
    omega
  rw [shape.text_eq,parts] at whole
  refine ⟨_,stop,place ▸ Nat.le_add_right _ _,?_⟩
  rw [place,Text.slice_part (by simpa using whole) rfl rfl]
  have declared := shape.enclosed_declared
  rw [parts] at declared
  exact declared.behind

/-- What stands in front of the brace belongs to no literal. -/
theorem masks_before_brace (member : found ∈ pattern.findAll (maskLiterals (maskComments content))) :
    ∃ n c, found.stop = n + 2 ∧ (maskLiterals (maskComments content))[n]? = some c ∧
      (maskComments content)[n]? = some c := by
  obtain ⟨shape,front,more,rfl,whole⟩ := exists_standing member
  let site := shape.site front.length
  have stop : (shape.found front.length).stop = site.closing + shape.clause.length + 2 := by
    simp only [site,Shape.site,Shape.found,Shape.text,Shape.call,Shape.finish,List.length_append,
      List.length_cons,List.length_nil]
    omega
  have outside : ¬InLiteral content (site.closing + shape.clause.length) := by
    apply shape.outside_finish whole (Nat.le_add_right _ _)
    simp only [Shape.site]
    omega
  have kept := masks_eq_of_not_inLiteral outside
  have inside : site.closing + shape.clause.length < (maskComments content).length := by
    have length := shape.length_content whole
    rw [length_maskComments]
    simp only [Shape.site,site] at length ⊢
    omega
  rw [List.getElem?_eq_getElem inside] at kept
  exact ⟨_,_,stop,kept,List.getElem?_eq_getElem inside⟩

end Preambles

end Method

namespace Lexical

/-- A stretch of the text with its comments masked, from the start of the declaration at a place to a
stop. Where literals are masked too, no boundary in it stands outside of parentheses. -/
structure Preamble (content part seen : List Char) (declaration stop : Nat) : Prop where
  ordered : declaration ≤ stop ∧ stop ≤ content.length
  stands : Text.slice (maskComments content)
    (declarationStart (maskLiterals (maskComments content)) declaration) stop = part
  shown : Text.slice (maskLiterals (maskComments content))
    (declarationStart (maskLiterals (maskComments content)) declaration) stop = seen
  enclosed : Enclosed seen

/-- Where the last character of a stretch shows, the mask of the stretch is that of the text. -/
theorem maskLiterals_stretch {text : List Char} {start n : Nat} {c : Char}
    (begins : Begins (maskLiterals text) start) (low : start ≤ n + 1)
    (shown : (maskLiterals text)[n]? = some c) (stands : text[n]? = some c) :
    maskLiterals (Text.slice text start (n + 1)) = Text.slice (maskLiterals text) start (n + 1) := by
  rcases Nat.lt_or_eq_of_le low with before | rfl
  · have inner := Nat.le_of_lt_succ before
    rw [maskLiterals_slice begins inner,Text.slice_concat inner shown,stands]
    rfl
  · have empty (text : List Char) : Text.slice text (n + 1) (n + 1) = [] := by simp [Text.slice]
    rw [empty,empty]
    rfl

theorem preamble_of_method {content : List Char} {method : Method}
    (member : method ∈ Method.readAll content) :
    ∃ part seen declaration stop, Preamble content part seen declaration stop ∧
      maskLiterals part = seen ∧ method.annotations = AnnotationUse.readAll (part ++ ['\x7b']) ∧
      AnnotationUse.readAll (part ++ ['\x7b']) = AnnotationUse.readAll part := by
  obtain ⟨found,among,made⟩ := List.mem_filterMap.mp member
  obtain ⟨_,stop,low,enclosed⟩ := Method.enclosed_declaration among
  obtain ⟨n,c,last,shown,stands⟩ := Method.masks_before_brace among
  cases stop.symm.trans last
  have nearest := nearest_declarationStart (maskLiterals (maskComments content))
    (Method.declarationOf found)
  have begins := boundary_of_declarationStart (maskLiterals (maskComments content))
    (Method.declarationOf found)
  have before := nearest.within.trans low
  have brace := Method.brace_of_found among stop
  have here := getElem?_of_shown brace (by decide)
  have inside := (List.getElem?_eq_some_iff.mp here).1
  rw [length_maskComments] at inside
  -- The brace shows and so does what stands in front of it: with the brace and without it, the
  -- stretch is masked as the text is.
  have masked := maskLiterals_stretch begins before shown stands
  have longer := maskLiterals_stretch begins (before.trans (Nat.le_succ _)) brace here
  rw [Text.slice_concat before here,Text.slice_concat before brace,← masked] at longer
  refine ⟨_,_,Method.declarationOf found,n + 1,⟨⟨low,Nat.le_of_lt inside⟩,rfl,rfl,?_⟩,masked,?_,
    AnnotationUse.readAll_brace longer⟩
  · rw [Text.slice_join nearest.within low]
    exact nearest.enclosed.append enclosed
  · rw [Method.annotations_of_made made,stop,Text.slice_concat before here]

theorem preamble_of_type (content name : List Char) :
    ∃ seen stop, Preamble content (Endpoint.typePreamble content name) seen stop stop := by
  have enclosed (stop : Nat) :=
    (nearest_declarationStart (maskLiterals (maskComments content)) stop).enclosed
  rw [Endpoint.typePreamble_eq]
  cases declared : Endpoint.declared? (maskComments content) name with
  | none => exact ⟨_,0,⟨Nat.le_refl 0,Nat.zero_le _⟩,rfl,rfl,enclosed 0⟩
  | some found =>
    have bounds := Endpoint.bounds_of_declared declared
    rw [length_maskComments] at bounds
    exact ⟨_,found.start,⟨Nat.le_refl _,bounds.1.trans bounds.2⟩,rfl,rfl,enclosed found.start⟩

/-- A declaration starts at the one place that is nearest in front of it: at the beginning of the text
or behind a boundary outside of parentheses, with no further such boundary up to the declaration. In
what the annotations of a type are read from no boundary stands outside of parentheses. For a method
this holds of what stands in front of its body: the brace of the body is read too, and adds nothing. -/
theorem declarationStart_nearest :
    (∀ (text : List Char) (stop : Nat), stop ≤ text.length → ∃ start,
      declarationStart? text stop = some start ∧ ∀ other, Nearest text stop other ↔ other = start) ∧
    (∀ content, ∀ method ∈ Method.readAll content, ∃ part seen declaration stop,
      Preamble content part seen declaration stop ∧ maskLiterals part = seen ∧
      method.annotations = AnnotationUse.readAll (part ++ ['\x7b']) ∧
      AnnotationUse.readAll (part ++ ['\x7b']) = AnnotationUse.readAll part) ∧
    ∀ content name, ∃ seen stop,
      Preamble content (Endpoint.typePreamble content name) seen stop stop := by
  refine ⟨?_,fun content method => preamble_of_method,preamble_of_type⟩
  intro text stop inside
  refine ⟨declarationStart text stop,?_,fun other => ?_⟩
  · rw [declarationStart?,if_pos (Int.ofNat_le.mpr inside)]
    rfl
  · rw [← declarationStart_iff]
    exact eq_comm

/-- The annotations of this method are read from the whole text, at the end of which stands the brace
of the body, outside of parentheses. -/
theorem not_enclosed_method :
    let content := "public int m() \x7b".toList
    ∃ found ∈ Method.pattern.findAll (maskLiterals (maskComments content)), ∃ method,
      Method.ofMatch (Method.javadocs content (maskComments content)) (maskComments content)
        (maskLiterals (maskComments content)) found = some method ∧
      Text.slice (maskComments content) (declarationStart (maskLiterals (maskComments content))
        (Method.declarationOf found)) found.stop = content ∧
      method.annotations = AnnotationUse.readAll content ∧
      maskLiterals content = content ∧ ¬Enclosed content := by
  intro content
  obtain ⟨found,member,made,whole⟩ :
      ∃ found ∈ Method.pattern.findAll (maskLiterals (maskComments content)),
        (Method.ofMatch (Method.javadocs content (maskComments content)) (maskComments content)
          (maskLiterals (maskComments content)) found).isSome = true ∧
        Text.slice (maskComments content) (declarationStart (maskLiterals (maskComments content))
          (Method.declarationOf found)) found.stop = content := by
    decide +kernel
  obtain ⟨method,made⟩ := Option.isSome_iff_exists.mp made
  have read := Method.annotations_of_made made
  rw [whole] at read
  exact ⟨found,member,method,made,whole,read,by decide +kernel,
    not_enclosed_concat (by decide : isBoundary '\x7b' = true) "public int m() ".toList⟩

/-- A boundary in parentheses is passed over, and one in a literal is no boundary. -/
theorem declarationStart_nearest_parentheses :
    9 ≤ "a; @A(;) f".toList.length ∧ declarationStart? "a; @A(;) f".toList 9 = some 2 ∧
      Nearest "a; @A(;) f".toList 9 2 ∧
      ∃ method ∈ Method.readAll "int x; @Path(\"/;\") public int m(int a) \x7b".toList,
        method.annotations.map AnnotationUse.name = ["Path"] ∧ ∃ part,
          Enclosed (maskLiterals part) ∧ method.annotations = AnnotationUse.readAll part := by
  have inside : 9 ≤ "a; @A(;) f".toList.length := by decide
  have two : declarationStart? "a; @A(;) f".toList 9 = some 2 := by decide +kernel
  obtain ⟨start,found,alone⟩ := declarationStart_nearest.1 "a; @A(;) f".toList 9 inside
  cases two.symm.trans found
  obtain ⟨method,member,named⟩ :
      ∃ method ∈ Method.readAll "int x; @Path(\"/;\") public int m(int a) \x7b".toList,
        method.annotations.map AnnotationUse.name = ["Path"] := by decide +kernel
  obtain ⟨part,_,_,_,preamble,rfl,read,same⟩ := declarationStart_nearest.2.1 _ method member
  exact ⟨inside,two,(alone 2).mpr rfl,method,member,named,part,preamble.enclosed,read.trans same⟩

end Lexical

end JavaAtlas
