import JavaAtlas.Java.Endpoint
import JavaAtlas.Proofs.Marks

/-! Where a type is declared. A search passes over every run of characters that is no keyword, so
what is written between keyword and blank settles where it ends. -/
namespace JavaAtlas

namespace Endpoint
open Pattern

def kinds : List (List Char) := ["class".toList,"interface".toList,"enum".toList]

section Search
variable {name : Pattern}

/-- A declaration of a type starts with a keyword and a blank. -/
theorem kind_of_match {border : Option Char} {position : Nat} {rest : List Char} {found : Match}
    (matched : (typePattern name).matchAt border position rest = some found) :
    ∃ kind ∈ kinds, ∃ c more, rest = kind ++ c :: more ∧ Text.isBlank c = true := by
  obtain ⟨stop,ran,_⟩ := Option.map_eq_some_iff.mp matched
  have further {kind : List Char} {go : Cursor → Option Cursor}
      (ran : (literal kind).run ⟨position,border,rest,[]⟩
        (fun middle => blanks1.run middle go) = some stop) :
      ∃ c more, rest = kind ++ c :: more ∧ Text.isBlank c = true := by
    obtain ⟨more,starts,goes⟩ := literal_some ran
    obtain ⟨c,after,shape,blank,_⟩ := one_some goes
    rw [Cursor.rest_past kind starts] at shape
    exact ⟨c,after,starts.trans (congrArg (kind ++ ·) shape),blank⟩
  change (if Cursor.atBorder _ then _ else _) = _ at ran
  split at ran
  · rcases either_some ran with here | ran
    · exact ⟨_,by decide,further here⟩
    · rcases either_some ran with here | here
      · exact ⟨_,by decide,further here⟩
      · exact ⟨_,by decide,further here⟩
  · cases ran

/-- No type is declared where the characters up to the next blank end with no keyword. -/
theorem misses_solid {front rest : List Char} {stop : Char}
    (solid : ∀ c ∈ front, Text.isBlank c = false) (blank : Text.isBlank stop = true)
    (apart : ∀ kind ∈ kinds, ¬ kind <:+ front) :
    (typePattern name).Misses (front ++ [stop]) rest := by
  have never {back : List Char} (within : back <:+ front) (border : Option Char) (position : Nat) :
      (typePattern name).matchAt border position (back ++ stop :: rest) = none := by
    rw [Option.eq_none_iff_forall_ne_some]
    intro found matched
    obtain ⟨kind,member,c,more,shape,ends⟩ := kind_of_match matched
    have letters : ∀ c ∈ kind, (!Text.isBlank c) = true :=
      (by decide : ∀ kind ∈ kinds, ∀ c ∈ kind, (!Text.isBlank c) = true) kind member
    have short : ∀ c ∈ back, (!Text.isBlank c) = true := by
      intro c inside
      rw [solid c (within.subset inside)]
      rfl
    have same := Text.leaves_once short letters (by rw [blank]; rfl) (by rw [ends]; rfl) shape
    exact apart kind member (same.1 ▸ within)
  rw [misses_append,misses_cons]
  refine ⟨fun back within _ border position => never within border position,?_,misses_nil _ _⟩
  intro border position
  exact never List.nil_suffix border position

theorem not_suffix_concat {front : List Char} {last : Char}
    (apart : ∀ kind ∈ kinds, kind.getLast? ≠ some last) :
    ∀ kind ∈ kinds, ¬ kind <:+ front ++ [last] := by
  rintro kind member ⟨before,same⟩
  have nonempty : kind ≠ [] := (by decide : ∀ kind ∈ kinds, kind ≠ []) kind member
  apply apart kind member
  have ends := congrArg List.getLast? same
  rw [List.getLast?_append_of_ne_nil _ nonempty,List.getLast?_concat] at ends
  exact ends

theorem matchAt_class {name rest : List Char} {c : Char} {last : Option Char} (position : Nat)
    (named : name ≠ []) (letters : ∀ c ∈ name, Text.isWord c = true)
    (before : last.any Text.isWord = false) (after : Text.isWord c = false) :
    ∃ found, (typePattern (literal name)).matchAt last position
      ("class".toList ++ (' ' :: (name ++ c :: rest))) = some found ∧ found.start = position := by
  let start : Cursor := ⟨position,last,"class".toList ++ (' ' :: (name ++ c :: rest)),[]⟩
  have starts : start.rest = "class".toList ++ ([' '] ++ (name ++ c :: rest)) := rfl
  have atBlank := Cursor.rest_past _ starts
  have atName := Cursor.rest_past _ atBlank
  have atEnd := Cursor.rest_past _ atName
  have opens : border.Takes start start := by
    apply takes_border
    rw [Cursor.atBorder,before]
    rfl
  have blank : blanks1.Takes (start.past "class".toList) ((start.past "class".toList).past [' ']) := by
    refine takes_longest1_one atBlank (by decide) (by decide) ?_
    intro d head
    obtain ⟨e,name,rfl⟩ := List.exists_cons_of_ne_nil named
    cases head
    exact Text.isBlank_of_isWord (letters d List.mem_cons_self)
  have closes : border.Takes (((start.past "class".toList).past [' ']).past name)
      (((start.past "class".toList).past [' ']).past name) := by
    apply takes_border
    have word := letters _ (List.getLast_mem named)
    rw [Cursor.atBorder,atEnd]
    simp [Cursor.past,List.getLast?_eq_some_getLast named,word,after]
  have takes : (typePattern (literal name)).Takes start
      (((start.past "class".toList).past [' ']).past name) :=
    opens.seq ((Takes.left (takes_literal starts) _).seq
      (blank.seq ((takes_literal atName).seq closes)))
  exact ⟨_,matchAt_of_takes takes,rfl⟩

end Search

end Endpoint

namespace Header
open Pattern

/-- A package that is declared at the start of a text is the package of the text. -/
theorem packageOf_spaced {gap package space rest : List Char} (apart : gap ≠ [])
    (blank : ∀ c ∈ gap ++ space, Text.isBlank c = true) (named : package ≠ [])
    (letters : ∀ c ∈ package, isNameChar c = true) :
    packageOf ("package".toList ++ (gap ++ (package ++ (space ++ ';' :: rest)))) =
      String.ofList package := by
  let start : Cursor := ⟨0,none,"package".toList ++ (gap ++ (package ++ (space ++ ';' :: rest))),[]⟩
  have starts : start.rest = "package".toList ++ (gap ++ (package ++ (space ++ ';' :: rest))) := rfl
  have atGap := Cursor.rest_past _ starts
  have atName := Cursor.rest_past _ atGap
  have atSpace := Cursor.rest_past _ atName
  have atEnd := Cursor.rest_past _ atSpace
  rw [List.forall_mem_append] at blank
  have opening : blanks1.Takes (start.past "package".toList)
      ((start.past "package".toList).past gap) := by
    refine takes_longest1_one atGap apart blank.1 ?_
    intro c head
    obtain ⟨d,package,rfl⟩ := List.exists_cons_of_ne_nil named
    cases head
    exact isBlank_of_isNameChar (letters c List.mem_cons_self)
  have ends : ∀ c, (space ++ ';' :: rest).head? = some c → isNameChar c = false := by
    intro c head
    cases space with
    | nil => cases head; rfl
    | cons d space =>
      cases head
      exact not_isNameChar_of_isBlank (blank.2 c List.mem_cons_self)
  let behind := (((start.past "package".toList).past gap).past package).hold 1
    ((start.past "package".toList).past gap).position package
  have name : (capture 1 (longest1 (one isNameChar))).Takes
      ((start.past "package".toList).past gap) behind :=
    (takes_longest1_one atName named letters ends).capture atName 1
  have skip : blanks.Takes behind (behind.past space) :=
    takes_longest_one atSpace blank.2 (by rintro c same; cases same; rfl)
  have close : (char ';').Takes (behind.past space) _ := takes_one atEnd rfl
  have takes : packagePattern.Takes start _ :=
    (takes_border rfl).seq ((takes_literal starts).seq (opening.seq (name.seq (skip.seq close))))
  have found : packagePattern.search start.rest = some _ := searchFrom_found (matchAt_of_takes takes)
  rw [packageOf,found]
  simp [Match.captured,Match.capture?,Cursor.hold,Cursor.past,behind]

theorem packageOf_text {package rest : List Char} (named : package ≠ [])
    (letters : ∀ c ∈ package, isNameChar c = true) :
    packageOf ("package".toList ++ (' ' :: (package ++ ';' :: rest))) = String.ofList package :=
  @packageOf_spaced [' '] package [] rest (List.cons_ne_nil _ _) (by decide) named letters

end Header

end JavaAtlas
