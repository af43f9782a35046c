import JavaAtlas.Proofs.Declarations
import JavaAtlas.Proofs.Keywords
import JavaAtlas.Proofs.Preambles

/-! Clauses of a type head. Each pattern of a header needs keywords that stand alone; where they do,
in their order and with blanks between, it is found, and it captures what is written there. A list of
names goes on exactly as far as no clause begins in it. -/
namespace JavaAtlas

namespace Header
open Pattern
open Text (OneWord Alone Ahead Blank Trail)
open Relation (ReflTransGen)

def classWord : List Char := "class".toList
def extendsWord : List Char := "extends".toList
def implementsWord : List Char := "implements".toList

def clauseWords : List (List Char) := [implementsWord,extendsWord]

theorem oneWord_class : ∀ keyword ∈ [classWord], OneWord keyword := by decide

theorem oneWord_extends : OneWord extendsWord := by decide

theorem oneWord_clause : ∀ keyword ∈ clauseWords, OneWord keyword := by decide

section Superclass

theorem opens_superclass : superclassPattern.Opens [classWord] := by
  intro border position rest found here
  obtain ⟨stop,way,_⟩ := reaches_of_matchAt here
  obtain ⟨_,⟨atBorder,rfl⟩,_,keyword,_,gap,_⟩ := way
  exact ahead_of_reaches (oneWord_class _ List.mem_cons_self) List.mem_cons_self atBorder
    (spells_of_literal keyword) gap

/-- A superclass is found behind an `extends`. -/
theorem alone_of_superclass {text : List Char} {found : Match}
    (searched : superclassPattern.search text = some found) : Alone extendsWord text := by
  obtain ⟨before,back,rfl,here⟩ := matchAt_of_searchFrom searched
  obtain ⟨stop,way,_⟩ := reaches_of_matchAt here
  obtain ⟨_,⟨_,rfl⟩,_,keyword,_,gap,_,name,_,parameters,_,space,_,clause,next,middle,_⟩ := way
  obtain ⟨gap,_,one⟩ := blank_of_reaches gap
  obtain ⟨name,_,_,two⟩ := spells_of_longest1 name
  obtain ⟨parameters,_,three⟩ := (over_true _).spells rfl parameters
  obtain ⟨space,left,four⟩ := blank_of_reaches space
  obtain ⟨middle,right,five⟩ := blank_of_reaches middle
  have whole := ((spells_of_literal keyword).append one).append (two.append (three.append
    (four.append ((spells_of_literal clause).append five))))
  have shape : back = (classWord ++ gap ++ (name ++ (parameters ++ (space ++ (extendsWord ++
    middle))))) ++ next.rest := whole.1
  have alone := @Alone.between extendsWord _ _ left right
    (before ++ (classWord ++ (gap ++ (name ++ parameters)))) next.rest
  rw [shape]
  simpa only [List.append_assoc] using alone

/-- Nothing but blanks before something else is no list of type parameters. -/
theorem fails_parameters {cursor : Cursor} {space more : List Char} {c : Char}
    (blank : Blank space) (starts : cursor.rest = space ++ c :: more)
    (solid : Text.isBlank c = false) (apart : c ≠ '<') :
    (sequence [blanks,char '<',shortest (one (· != '\x7b')),char '>']).Fails cursor := by
  intro α go
  rw [Option.eq_none_iff_forall_ne_some]
  intro result ran
  obtain ⟨_,⟨middle,skip,_,bracket,_⟩,_⟩ := reaches_of_run ran
  have covered : blanks.Over fun c => Text.isBlank c = true := fun _ => id
  obtain ⟨skipped,low,one⟩ := covered.spells rfl skip
  obtain ⟨d,same,two⟩ := spells_of_one bracket
  rw [beq_iff_eq.mp same] at two
  have shape := starts.symm.trans (one.append two).1
  rw [List.append_assoc] at shape
  exact apart (Text.leaves_once blank.2 low solid (by decide) shape).2

/-- The superclass is what stands behind the name of the class and `extends`. -/
theorem matchAt_superclass {name base text : List Char} {border : Option Char} (position : Nat)
    (parted : border.any Text.isWord = false)
    (trail : Trail Blank [classWord,name,extendsWord,base] text) (named : OneWord name)
    (based : base ≠ []) (letters : ∀ c ∈ base, isNameChar c = true) (rest : List Char) :
    ∃ found, superclassPattern.matchAt border position (text ++ rest) = some found ∧
      found.captured 1 = base := by
  obtain ⟨gap,_,rfl,gapped,trail⟩ := trail.uncons
  obtain ⟨space,_,rfl,spaced,trail⟩ := trail.uncons
  obtain ⟨middle,_,rfl,middled,trail⟩ := trail.uncons
  obtain ⟨behind,_,rfl,ended,trail⟩ := trail.uncons
  obtain rfl := trail.eq_nil
  simp only [List.append_assoc,List.nil_append]
  let start : Cursor := ⟨position,border,classWord ++ (gap ++ (name ++ (space ++ (extendsWord ++
    (middle ++ (base ++ (behind ++ rest))))))),[]⟩
  have starts : start.rest = classWord ++ _ := rfl
  have atGap := Cursor.rest_past _ starts
  have atName := Cursor.rest_past _ atGap
  have atSpace := Cursor.rest_past _ atName
  have atClause := Cursor.rest_past _ atSpace
  have atMiddle := Cursor.rest_past _ atClause
  have atBase := Cursor.rest_past _ atMiddle
  have bare : (sequence [blanks,char '<',shortest (one (· != '\x7b')),char '>']).Fails
      (((start.past classWord).past gap).past name) :=
    @fails_parameters _ space _ 'e' spaced atSpace (by decide) (by decide)
  have opens : Pattern.border.Takes start start :=
    takes_opening (oneWord_class _ List.mem_cons_self) parted starts
  have named_ : (longest1 (one Text.isWord)).Takes ((start.past classWord).past gap) _ :=
    takes_longest1_one atName named.1 named.2 (Text.forall_head? spaced.1 (fun c member =>
      Text.not_isWord_of_isBlank (spaced.2 c member)) _)
  have based_ := (takes_longest1_one atBase based letters (Text.forall_head? ended.1
    (fun c member => not_isNameChar_of_isBlank (ended.2 c member)) _)).capture atBase 1
  have solid := @Text.forall_head? _ _ based (fun c member => isBlank_of_isNameChar (letters c member))
    (behind ++ rest)
  have takes : superclassPattern.Takes start _ :=
    opens.seq ((takes_literal starts).seq ((takes_blanks1 gapped atGap (named.solid _)).seq
      (named_.seq ((takes_optional bare).seq
        ((takes_blanks1 spaced atSpace (oneWord_extends.solid _)).seq
          ((takes_literal atClause).seq ((takes_blanks1 middled atMiddle solid).seq based_)))))))
  refine ⟨_,matchAt_of_takes takes,?_⟩
  simp [Match.captured,Match.capture?,Cursor.hold,Cursor.past]

end Superclass

section Clause
variable {cursor next : Cursor} {keyword names more : List Char}

theorem spells_of_clauseWord (way : clauseWord.Reaches cursor next) :
    ∃ keyword ∈ clauseWords, cursor.Spells keyword next := by
  rcases way with first | second
  · exact ⟨implementsWord,List.mem_cons_self,spells_of_literal first⟩
  · exact ⟨extendsWord,List.mem_cons_of_mem _ List.mem_cons_self,spells_of_literal second⟩

theorem takes_clauseWord (member : keyword ∈ clauseWords) (starts : cursor.rest = keyword ++ more) :
    clauseWord.Takes cursor (cursor.past keyword) := by
  simp only [clauseWords,List.mem_cons,List.not_mem_nil,or_false] at member
  rcases member with rfl | rfl
  · exact Takes.left (takes_literal starts) _
  · refine Takes.right (fails_literal ?_) (takes_literal starts)
    rintro ⟨rest,shape⟩
    have heads := congrArg List.head? (shape.trans starts)
    cases heads

/-- What ends a list of names. -/
def clauseAhead : Pattern := sequence [border,clauseWord,border]

/-- A clause begins at a place exactly if one of its keywords stands alone there. -/
theorem run_clauseAhead : (clauseAhead.run cursor fun _ => some ()) = none ↔
    ¬ Ahead clauseWords cursor.before cursor.rest := by
  constructor
  · rintro fails ⟨left,keyword,member,more,starts,right⟩
    have one := oneWord_clause keyword member
    have closes : border.Takes (cursor.past keyword) (cursor.past keyword) := by
      apply takes_border
      rw [atBorder_past one,Cursor.rest_past _ starts,right]
      rfl
    have takes : clauseAhead.Takes cursor (cursor.past keyword) :=
      (takes_opening one left starts).seq ((takes_clauseWord member starts).seq closes)
    have found := @takes Unit (fun _ => some ()) () rfl
    rw [fails] at found
    cases found
  · intro free
    rw [Option.eq_none_iff_forall_ne_some]
    intro result ran
    obtain ⟨_,⟨_,⟨left,rfl⟩,_,clause,right,rfl⟩,_⟩ := reaches_of_run ran
    obtain ⟨keyword,member,starts,rfl⟩ := spells_of_clauseWord clause
    have one := oneWord_clause keyword member
    rw [atBorder_past one,Bool.not_eq_true'] at right
    exact free ⟨any_before_of_border one left starts,keyword,member,_,starts,right⟩

/-- The names of a clause are taken as a whole if no clause begins among them. -/
theorem takes_listed (starts : cursor.rest = names ++ '\x7b' :: more) (given : names ≠ [])
    (letters : ∀ c ∈ names, Method.isClauseChar c = true)
    (free : ∀ keyword ∈ clauseWords, ¬ Alone keyword names) :
    (longest1 listChar).Takes cursor (cursor.past names) := by
  refine takes_longest1_text starts given ?_ ?_
  · rintro before c after rfl
    rw [List.append_assoc] at starts
    have here := Cursor.rest_past before starts
    have bare : ¬ Ahead clauseWords (cursor.past before).before (cursor.past before).rest := by
      intro ahead
      rw [here] at ahead
      obtain ⟨keyword,member,alone⟩ := ahead.alone_within oneWord_clause (List.cons_ne_nil c after)
        (.inr rfl)
      exact free keyword member alone
    exact (takes_notAhead (run_clauseAhead.mpr bare)).seq (takes_one here (letters c (by simp)))
  · intro α go
    rw [Option.eq_none_iff_forall_ne_some]
    intro result ran
    obtain ⟨_,⟨_,⟨_,rfl⟩,c,rest,brace,accepted,_⟩,_⟩ := reaches_of_run ran
    rw [Cursor.rest_past names starts] at brace
    cases brace
    cases accepted

/-- No clause begins among names that are taken. -/
theorem free_of_reaches (left : cursor.before.any Text.isWord = false)
    (way : (longest1 listChar).Reaches cursor next)
    (right : next.rest.head?.any Text.isWord = false) :
    ∃ names, cursor.Spells names next ∧ (∀ c ∈ names, Method.isClauseChar c = true) ∧
      ∀ keyword ∈ clauseWords, ¬ Alone keyword names := by
  obtain ⟨middle,first,others⟩ := way
  have places : ∃ names, cursor.Spells names next ∧
      (∀ c ∈ names, Method.isClauseChar c = true) ∧ ∀ before after, names = before ++ after →
        after ≠ [] → ¬ Ahead clauseWords (before.getLast?.or cursor.before) (after ++ next.rest) := by
    have path : ReflTransGen listChar.Reaches cursor next := .head first others
    clear first others left
    induction path using ReflTransGen.head_induction_on with
    | refl =>
      refine ⟨[],next.spells_nil,List.forall_mem_nil _,?_⟩
      intro before after empty further
      exact absurd (List.append_eq_nil_iff.mp empty.symm).2 further
    | @head cursor middle step _ ih =>
      obtain ⟨names,spells,letters,free⟩ := ih
      obtain ⟨_,⟨quiet,rfl⟩,one⟩ := step
      obtain ⟨c,accepted,moves⟩ := spells_of_one one
      have whole := moves.append spells
      refine ⟨c :: names,whole,List.forall_mem_cons.mpr ⟨accepted,letters⟩,?_⟩
      intro before after shape further
      cases before with
      | nil =>
        rw [List.nil_append] at shape
        rw [← shape]
        have here := run_clauseAhead.mp quiet
        rwa [whole.1] at here
      | cons d before =>
        rw [List.cons_append,List.cons.injEq] at shape
        obtain ⟨rfl,shape⟩ := shape
        have later := free before after shape further
        rw [moves.2] at later
        rw [getLast?_cons_or]
        exact later
  obtain ⟨names,spells,letters,free⟩ := places
  refine ⟨names,spells,letters,?_⟩
  rintro keyword member ⟨front,back,rfl,apart,parted⟩
  have one := oneWord_clause keyword member
  refine free front (keyword ++ back) rfl (List.append_ne_nil_of_left_ne_nil one.1 back)
    ⟨Text.any_or apart left,keyword,member,back ++ next.rest,List.append_assoc _ _ _,?_⟩
  rw [List.head?_append]
  exact Text.any_or parted right

theorem opens_interface : interfacePattern.Opens clauseWords := by
  intro border position rest found here
  obtain ⟨stop,way,_⟩ := reaches_of_matchAt here
  obtain ⟨_,⟨atBorder,rfl⟩,_,clause,_,gap,_⟩ := way
  obtain ⟨keyword,member,spells⟩ := spells_of_clauseWord clause
  exact ahead_of_reaches (oneWord_clause keyword member) member atBorder spells gap

section Found
variable {gap : List Char} {border : Option Char}

/-- A clause is found if no other one begins before the body. -/
theorem matchAt_clause (position : Nat) (parted : border.any Text.isWord = false)
    (member : keyword ∈ clauseWords) (gapped : Blank gap) (given : names ≠ [])
    (solid : ∀ c, names.head? = some c → Text.isBlank c = false)
    (letters : ∀ c ∈ names, Method.isClauseChar c = true)
    (free : ∀ keyword ∈ clauseWords, ¬ Alone keyword names) (more : List Char) :
    ∃ found, interfacePattern.matchAt border position
      (keyword ++ (gap ++ (names ++ '\x7b' :: more))) = some found ∧ found.captured 1 = names := by
  let start : Cursor := ⟨position,border,keyword ++ (gap ++ (names ++ '\x7b' :: more)),[]⟩
  have starts : start.rest = keyword ++ (gap ++ (names ++ '\x7b' :: more)) := rfl
  have atGap := Cursor.rest_past _ starts
  have atNames := Cursor.rest_past _ atGap
  have atBrace := Cursor.rest_past _ atNames
  have opens : Pattern.border.Takes start start :=
    takes_opening (oneWord_clause keyword member) parted starts
  have first : ∀ c, (names ++ '\x7b' :: more).head? = some c → Text.isBlank c = false := by
    obtain ⟨d,names,rfl⟩ := List.exists_cons_of_ne_nil given
    exact solid
  let behind := (((start.past keyword).past gap).past names).hold 1
    ((start.past keyword).past gap).position names
  have listed : (capture 1 (longest1 listChar)).Takes ((start.past keyword).past gap) behind :=
    (takes_listed atNames given letters free).capture atNames 1
  have brace : (char '\x7b').Takes behind _ := takes_one atBrace rfl
  have takes : interfacePattern.Takes start _ :=
    opens.seq ((takes_clauseWord member starts).seq ((takes_blanks1 gapped atGap first).seq
      (listed.seq brace)))
  refine ⟨_,matchAt_of_takes takes,?_⟩
  simp [Match.captured,Match.capture?,Cursor.hold,Cursor.past,behind]

/-- A clause that is found reaches to the body, and no other one begins before. -/
theorem clause_of_match {position : Nat} {rest : List Char} {found : Match}
    (here : interfacePattern.matchAt border position rest = some found) :
    ∃ keyword ∈ clauseWords, ∃ gap names more, rest = keyword ++ (gap ++ (names ++ '\x7b' :: more)) ∧
      Blank gap ∧ (∀ c ∈ names, Method.isClauseChar c = true) ∧
      ∀ keyword ∈ clauseWords, ¬ Alone keyword names := by
  obtain ⟨stop,way,_⟩ := reaches_of_matchAt here
  obtain ⟨_,⟨_,rfl⟩,_,clause,begun,space,_,⟨middle,listed,rfl⟩,brace⟩ := way
  obtain ⟨keyword,member,one⟩ := spells_of_clauseWord clause
  obtain ⟨gap,gapped,two⟩ := blank_of_reaches space
  obtain ⟨c,same,four⟩ := spells_of_one brace
  cases beq_iff_eq.mp same
  have ends : middle.rest = '\x7b' :: stop.rest := four.1
  have left : begun.before.any Text.isWord = false := by
    have last := gapped.any_getLast? []
    obtain ⟨front,c,rfl⟩ := (List.eq_nil_or_concat' gap).resolve_left gapped.1
    rw [two.2]
    simpa [Cursor.past,List.getLast?_append] using last
  obtain ⟨names,three,letters,free⟩ := free_of_reaches left listed (by rw [ends]; rfl)
  refine ⟨keyword,member,gap,names,stop.rest,?_,gapped,letters,free⟩
  have whole := (one.append (two.append three)).1
  rw [ends] at whole
  simpa only [List.append_assoc] using whole

/-- A clause is passed over if another one begins before the body. -/
theorem matchAt_passed {other : List Char} (position : Nat) (member : keyword ∈ clauseWords)
    (gapped : Blank gap) (letters : ∀ c ∈ names, Method.isClauseChar c = true)
    (another : other ∈ clauseWords) (alone : Alone other names) (more : List Char) :
    interfacePattern.matchAt border position (keyword ++ (gap ++ (names ++ '\x7b' :: more))) =
      none := by
  have closed {gap names : List Char} (gapped : Blank gap)
      (letters : ∀ c ∈ names, Method.isClauseChar c = true) :
      ∀ c ∈ gap ++ names, (c != '\x7b') = true := by
    intro c member
    rw [bne_iff_ne]
    rintro rfl
    rcases List.mem_append.mp member with blank | letter
    · exact absurd (gapped.2 _ blank) (by decide)
    · exact absurd (letters _ letter) (by decide)
  rw [Option.eq_none_iff_forall_ne_some]
  intro found here
  obtain ⟨begun,first,space,inside,rest,shape,spaced,inner,free⟩ := clause_of_match here
  have same : keyword = begun := by
    obtain ⟨c,gap,rfl⟩ := List.exists_cons_of_ne_nil gapped.1
    obtain ⟨d,space,rfl⟩ := List.exists_cons_of_ne_nil spaced.1
    exact (Text.leaves_once (oneWord_clause keyword member).2 (oneWord_clause begun first).2
      (Text.not_isWord_of_isBlank (gapped.2 c List.mem_cons_self))
      (Text.not_isWord_of_isBlank (spaced.2 d List.mem_cons_self)) shape).1
  have listed : gap ++ names = space ++ inside := by
    rw [same,List.append_cancel_left_eq,← List.append_assoc,← List.append_assoc] at shape
    exact (Text.leaves_once (closed gapped letters) (closed spaced inner) (by decide) (by decide)
      shape).1
  have padded := alone.append_left (gapped.any_getLast? [])
  rw [List.nil_append,listed] at padded
  exact free other another (padded.behind (oneWord_clause other another) spaced)

end Found

end Clause

section Names
variable {names : List (List Char)} {lead text : List Char}

/-- Names with commas between them are parted again. -/
theorem parts_of_trail (given : names ≠ [])
    (dotted : ∀ name ∈ names, name ≠ [] ∧ ∀ c ∈ name, isNameChar c = true)
    (blank : ∀ c ∈ lead, Text.isBlank c = true) (trail : Trail Blank (names.intersperse [',']) text) :
    ((lead ++ text).splitOn ',').map Text.trim = names := by
  have comma {gap : List Char} (blank : ∀ c ∈ gap, Text.isBlank c = true) : ',' ∉ gap :=
    fun member => absurd (blank _ member) (by decide)
  induction names generalizing lead text with
  | nil => exact absurd rfl given
  | cons name names ih =>
    rw [List.forall_mem_cons] at dotted
    have solid : ∀ c ∈ name, Text.isBlank c = false :=
      fun c member => isBlank_of_isNameChar (dotted.1.2 c member)
    have plain : ',' ∉ name := fun member => absurd (dotted.1.2 _ member) (by decide)
    have part {gap : List Char} (behind : Blank gap) : ((lead ++ (name ++ gap)).splitOn ',').map
        Text.trim = [name] := by
      rw [List.splitOn_eq_singleton (by simp [comma blank,plain,comma behind.2]),List.map_singleton,
        Text.trim_padded blank behind.2 dotted.1.1 solid]
    cases names with
    | nil =>
      obtain ⟨gap,_,rfl,behind,trail⟩ := trail.uncons
      rw [trail.eq_nil,List.append_nil]
      exact part behind
    | cons other names =>
      rw [List.intersperse_cons_cons] at trail
      obtain ⟨gap,_,rfl,behind,trail⟩ := trail.uncons
      obtain ⟨space,rest,rfl,before,trail⟩ := trail.uncons
      have shape : lead ++ (name ++ (gap ++ ([','] ++ (space ++ rest)))) =
          (lead ++ (name ++ gap)) ++ ',' :: (space ++ rest) := by simp
      rw [shape,List.splitOn_append_cons_self,List.map_append,part behind,
        ih (List.cons_ne_nil other names) dotted.2 before.2 trail]
      rfl

theorem interfacesOf_eq {found : Match} (given : names ≠ [])
    (dotted : ∀ name ∈ names, name ≠ [] ∧ ∀ c ∈ name, isNameChar c = true)
    (trail : Trail Blank (names.intersperse [',']) (found.captured 1))
    (searched : interfacePattern.search text = some found) :
    interfacesOf text = names.map String.ofList := by
  have parts := @parts_of_trail names [] _ given dotted (List.forall_mem_nil _) trail
  rw [List.nil_append] at parts
  rw [interfacesOf,searched]
  simp only [parts]
  clear parts trail given
  induction names with
  | nil => rfl
  | cons name names ih =>
    rw [List.forall_mem_cons] at dotted
    rw [List.filterMap_cons,if_neg (by simpa using dotted.1.1),ih dotted.2]
    rfl

end Names

section Declared
variable {keywords : List String} {name text more : List Char} {cursor next : Cursor}

/-- The keywords of a declaration, each with blanks behind it. -/
def declaring (keywords : List String) : Pattern :=
  sequence (keywords.map fun keyword => seq (word keyword) blanks1)

theorem takes_declaring (words : ∀ keyword ∈ keywords, OneWord keyword.toList)
    (trail : Trail Blank (keywords.map String.toList) text) (starts : cursor.rest = text ++ more)
    (solid : ∀ c, more.head? = some c → Text.isBlank c = false) :
    (declaring keywords).Takes cursor (cursor.past text) := by
  induction keywords generalizing cursor text with
  | nil =>
    obtain rfl := trail.eq_nil
    rw [Cursor.past_nil]
    exact takes_nothing cursor
  | cons keyword keywords ih =>
    rw [List.forall_mem_cons] at words
    rw [List.map_cons] at trail
    obtain ⟨gap,rest,rfl,blank,trail⟩ := trail.uncons
    rw [List.append_assoc,List.append_assoc] at starts
    have atGap := Cursor.rest_past _ starts
    have atRest := Cursor.rest_past _ atGap
    have further : ∀ c, (rest ++ more).head? = some c → Text.isBlank c = false := by
      cases keywords with
      | nil => rwa [trail.eq_nil]
      | cons other keywords =>
        rw [List.map_cons] at trail
        obtain ⟨_,_,rfl,_⟩ := trail.uncons
        rw [List.append_assoc]
        exact (words.2 other List.mem_cons_self).solid _
    have others := ih words.2 trail atRest
    have whole : ((cursor.past keyword.toList).past gap).past rest =
        cursor.past (keyword.toList ++ (gap ++ rest)) := by
      rw [Cursor.past_past,Cursor.past_past]
    rw [whole] at others
    exact Takes.sequence ((takes_literal starts).seq (takes_blanks1 blank atGap further)) others

theorem trail_of_declaring (way : (declaring keywords).Reaches cursor next) :
    ∃ text, Trail Blank (keywords.map String.toList) text ∧ cursor.Spells text next := by
  induction keywords generalizing cursor with
  | nil =>
    cases way
    exact ⟨[],.nil,next.spells_nil⟩
  | cons keyword keywords ih =>
    obtain ⟨middle,⟨_,first,second⟩,others⟩ := reaches_sequence way
    obtain ⟨gap,blank,behind⟩ := blank_of_reaches second
    obtain ⟨rest,trail,further⟩ := ih others
    exact ⟨keyword.toList ++ (gap ++ rest),.cons blank trail,
      (spells_of_literal first).append (behind.append further)⟩

/-- A declaration of the name is found behind its keywords. -/
theorem declares_written {front gap : List Char} (parted : front.getLast?.any Text.isWord = false)
    (given : keywords ≠ []) (words : ∀ keyword ∈ keywords, OneWord keyword.toList)
    (trail : Trail Blank (keywords.map String.toList) text) (named : OneWord name)
    (behind : Blank gap) (rest : List Char) :
    ((declares keywords name).search (front ++ (text ++ (name ++ (gap ++ rest))))).isSome = true := by
  let start : Cursor := ⟨0 + front.length,front.getLast?.or none,text ++ (name ++ (gap ++ rest)),[]⟩
  have starts : start.rest = text ++ (name ++ (gap ++ rest)) := rfl
  have atName := Cursor.rest_past _ starts
  have atGap := Cursor.rest_past _ atName
  have opens : Pattern.border.Takes start start := by
    obtain ⟨keyword,keywords,rfl⟩ := List.exists_cons_of_ne_nil given
    rw [List.map_cons] at trail
    obtain ⟨_,_,rfl,_⟩ := trail.uncons
    refine takes_opening (words keyword List.mem_cons_self) ?_ (List.append_assoc _ _ _)
    change (front.getLast?.or none).any Text.isWord = false
    rwa [Option.or_none]
  have closes : Pattern.border.Takes ((start.past text).past name) ((start.past text).past name) := by
    apply takes_border
    rw [atBorder_past named,atGap,behind.any_head? rest]
    rfl
  have takes : (declares keywords name).Takes start ((start.past text).past name) :=
    opens.seq ((takes_declaring words trail starts (named.solid _)).seq
      ((takes_literal atName).seq closes))
  obtain ⟨found,searched,_⟩ := exists_searchFrom (matchAt_of_takes takes)
  exact Option.isSome_iff_exists.mpr ⟨found,searched⟩

/-- Where a declaration is found its keywords stand. -/
theorem alone_of_declares (words : ∀ keyword ∈ keywords, OneWord keyword.toList) {found : Match}
    (searched : (declares keywords name).search text = some found) :
    ∀ keyword ∈ keywords, Alone keyword.toList text := by
  intro keyword member
  obtain ⟨before,back,rfl,here⟩ := matchAt_of_searchFrom searched
  obtain ⟨stop,way,_⟩ := reaches_of_matchAt here
  obtain ⟨_,⟨atBorder,rfl⟩,next,declared,_⟩ := way
  obtain ⟨front,trail,spells⟩ := trail_of_declaring declared
  have shape : back = front ++ next.rest := spells.1
  rw [shape]
  refine (trail.alone_of_mem (List.mem_map_of_mem member) next.rest).append_left ?_
  obtain ⟨first,others,rfl⟩ := List.exists_cons_of_ne_nil (List.ne_nil_of_mem member)
  rw [List.map_cons] at trail
  obtain ⟨_,_,rfl,_⟩ := trail.uncons
  have starts : back = first.toList ++ _ := shape.trans (List.append_assoc _ _ _)
  exact Text.any_of_or (any_before_of_border (words first List.mem_cons_self) atBorder starts)

end Declared

end Header

end JavaAtlas
