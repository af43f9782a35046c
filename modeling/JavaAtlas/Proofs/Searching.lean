import JavaAtlas.Pattern.Search
import JavaAtlas.Proofs.Matching

/-! Searches. A search passes over a text at no place of which the pattern matches, and what it finds
was matched at a place; the matches of a text follow each other, and what lies between them is kept. -/
namespace JavaAtlas

namespace Pattern
variable {pattern : Pattern}

theorem matchAt_of_takes {border : Option Char} {position : Nat} {rest : List Char} {next : Cursor}
    (takes : pattern.Takes ⟨position,border,rest,[]⟩ next) :
    pattern.matchAt border position rest =
      some ⟨position,next.position,rest.take (next.position - position),next.captures⟩ := by
  rw [matchAt,takes rfl]
  rfl

theorem reaches_of_matchAt {border : Option Char} {position : Nat} {rest : List Char}
    {found : Match} (matched : pattern.matchAt border position rest = some found) :
    ∃ stop, pattern.Reaches ⟨position,border,rest,[]⟩ stop ∧
      found = ⟨position,stop.position,rest.take (stop.position - position),stop.captures⟩ := by
  obtain ⟨stop,ran,rfl⟩ := Option.map_eq_some_iff.mp matched
  obtain ⟨_,way,same⟩ := reaches_of_run ran
  cases same
  exact ⟨stop,way,rfl⟩

/-- The pattern matches nowhere in a text that stands before another one. -/
def Misses (pattern : Pattern) (front rest : List Char) : Prop :=
  ∀ back, back <:+ front → back ≠ [] →
    ∀ border position, pattern.matchAt border position (back ++ rest) = none

theorem misses_nil (pattern : Pattern) (rest : List Char) : pattern.Misses [] rest := by
  intro back inside nonempty
  exact absurd (List.suffix_nil.mp inside) nonempty

theorem misses_cons {c : Char} {front rest : List Char} :
    pattern.Misses (c :: front) rest ↔
      (∀ border position, pattern.matchAt border position (c :: (front ++ rest)) = none) ∧
        pattern.Misses front rest := by
  constructor
  · intro misses
    refine ⟨misses (c :: front) List.suffix_rfl (by simp),?_⟩
    intro back inside
    exact misses back (inside.trans (List.suffix_cons c front))
  · rintro ⟨here,later⟩ back inside nonempty
    rcases List.suffix_cons_iff.mp inside with rfl | deeper
    · exact here
    · exact later back deeper nonempty

theorem misses_append {first second rest : List Char} :
    pattern.Misses (first ++ second) rest ↔
      pattern.Misses first (second ++ rest) ∧ pattern.Misses second rest := by
  induction first with
  | nil => simp [misses_nil]
  | cons c first ih => rw [List.cons_append,misses_cons,misses_cons,ih,List.append_assoc,and_assoc]

theorem getLast?_cons_or (c : Char) (text : List Char) (before : Option Char) :
    (c :: text).getLast?.or before = text.getLast?.or (some c) := by
  rw [List.getLast?_cons]
  cases text.getLast? <;> rfl

/-- A search goes on behind a text at no place of which the pattern matches, as the text stands. -/
theorem searchFrom_passes {front rest : List Char} {border : Option Char} {position : Nat}
    (misses : ∀ before back, front = before ++ back → back ≠ [] →
      pattern.matchAt (before.getLast?.or border) (position + before.length) (back ++ rest) = none) :
    pattern.searchFrom border position (front ++ rest) =
      pattern.searchFrom (front.getLast?.or border) (position + front.length) rest := by
  induction front generalizing border position with
  | nil => simp
  | cons c front ih =>
    have here : pattern.matchAt border position (c :: (front ++ rest)) = _ :=
      misses [] (c :: front) rfl (List.cons_ne_nil c front)
    have later := @ih (some c) (position + 1) fun before back shape further => by
      have behind := misses (c :: before) back (congrArg (c :: ·) shape) further
      rwa [getLast?_cons_or,List.length_cons,Nat.add_comm before.length,← Nat.add_assoc] at behind
    rw [List.cons_append,searchFrom,here]
    simp only
    rw [later,List.length_cons,getLast?_cons_or,Nat.add_assoc,Nat.add_comm 1]

theorem searchFrom_misses {front rest : List Char} (misses : pattern.Misses front rest)
    (border : Option Char) (position : Nat) :
    pattern.searchFrom border position (front ++ rest) =
      pattern.searchFrom (front.getLast?.or border) (position + front.length) rest := by
  apply searchFrom_passes
  intro before back shape further
  exact misses back ⟨before,shape.symm⟩ further _ _

/-- What a search finds was matched at a place of the text. -/
theorem matchAt_of_searchFrom {text : List Char} {border : Option Char} {position : Nat}
    {found : Match} (searched : pattern.searchFrom border position text = some found) :
    ∃ before back, text = before ++ back ∧
      pattern.matchAt (before.getLast?.or border) (position + before.length) back = some found := by
  induction text generalizing border position with
  | nil => exact ⟨[],[],rfl,searched⟩
  | cons c text ih =>
    rw [searchFrom] at searched
    split at searched
    · next here =>
      cases searched
      exact ⟨[],c :: text,rfl,here⟩
    · obtain ⟨before,back,rfl,here⟩ := ih searched
      refine ⟨c :: before,back,rfl,?_⟩
      rw [getLast?_cons_or,List.length_cons,Nat.add_comm before.length,← Nat.add_assoc]
      exact here

/-- What a match captures is of the kind of all that its pattern reads. -/
theorem Over.captured {kind : Char → Prop} (covered : pattern.Over kind) {text : List Char}
    {found : Match} (matched : pattern.search text = some found) (index : Nat) :
    ∀ c ∈ found.captured index, kind c := by
  have captures : ∀ entry ∈ found.captures, ∀ c ∈ entry.2.text, kind c := by
    obtain ⟨before,back,_,here⟩ := matchAt_of_searchFrom matched
    obtain ⟨stop,way,rfl⟩ := reaches_of_matchAt here
    intro entry member
    exact ((covered.of_reaches way).captures entry member).resolve_left List.not_mem_nil
  intro c member
  rw [Match.captured,Match.capture?] at member
  cases first : found.captures.find? fun entry => entry.1 == index with
  | none =>
    rw [first] at member
    cases member
  | some entry =>
    rw [first] at member
    exact captures entry (List.mem_of_find?_eq_some first) c member

theorem searchFrom_found {text : List Char} {border : Option Char} {position : Nat} {found : Match}
    (here : pattern.matchAt border position text = some found) :
    pattern.searchFrom border position text = some found := by
  cases text with
  | nil => exact here
  | cons c rest => rw [searchFrom,here]

theorem piecesFrom_eq (pattern : Pattern) (skip : Nat) (before : Option Char) (position : Nat)
    (text : List Char) (done : List Piece) :
    pattern.piecesFrom skip before position text done =
      done.reverse ++ pattern.piecesFrom skip before position text [] := by
  induction text generalizing skip before position done with
  | nil => cases skip <;> simp [piecesFrom]
  | cons c rest ih =>
    cases skip with
    | succ skip => rw [piecesFrom,piecesFrom,ih]
    | zero =>
      rw [piecesFrom,piecesFrom]
      split
      · split
        · rw [ih,ih _ _ _ [_]]; simp
        · rw [ih,ih _ _ _ [_]]; simp
      · rw [ih,ih _ _ _ [_]]; simp

/-- What is found was matched at its place. -/
theorem matchAt_of_mem_pieces {skip : Nat} {before : Option Char} {position : Nat}
    {text : List Char} {found : Match}
    (member : .matched found ∈ pattern.piecesFrom skip before position text []) :
    ∃ place border, found.start = position + place ∧
      pattern.matchAt border found.start (text.drop place) = some found := by
  induction text generalizing skip before position with
  | nil => cases skip <;> simp [piecesFrom] at member
  | cons c rest ih =>
    have later {skip : Nat} {done : List Piece} (apart : .matched found ∉ done)
        (inside : .matched found ∈ pattern.piecesFrom skip (some c) (position + 1) rest done) :
        ∃ place border, found.start = position + place ∧
          pattern.matchAt border found.start ((c :: rest).drop place) = some found := by
      rw [piecesFrom_eq,List.mem_append,List.mem_reverse] at inside
      obtain ⟨place,border,start,matched⟩ := ih (inside.resolve_left apart)
      exact ⟨place + 1,border,by omega,matched⟩
    cases skip with
    | succ skip =>
      rw [piecesFrom] at member
      exact later (by simp) member
    | zero =>
      rw [piecesFrom] at member
      split at member
      · next here matched =>
        split at member
        · exact later (by simp) member
        · by_cases same : here = found
          · subst same
            have start : here.start = position := by
              obtain ⟨stop,_,rfl⟩ := Option.map_eq_some_iff.mp matched
              rfl
            exact ⟨0,before,by rw [start]; rfl,by rw [start]; exact matched⟩
          · exact later (by simpa using Ne.symm same) member
      · exact later (by simp) member

theorem matchAt_of_mem_findAll {text : List Char} {found : Match}
    (member : found ∈ pattern.findAll text) :
    ∃ border, pattern.matchAt border found.start (text.drop found.start) = some found := by
  obtain ⟨piece,inside,kind⟩ := List.mem_filterMap.mp member
  cases piece with
  | kept c => cases kind
  | matched here =>
    cases kind
    obtain ⟨place,border,start,matched⟩ := matchAt_of_mem_pieces inside
    rw [Nat.zero_add] at start
    rw [← start] at matched
    exact ⟨border,matched⟩

/-- The matches in a text that stands at a position. -/
def findFrom (pattern : Pattern) (border : Option Char) (position : Nat) (text : List Char) :
    List Match :=
  (pattern.piecesFrom 0 border position text []).filterMap Piece.match?

theorem findFrom_nil (border : Option Char) (position : Nat) :
    pattern.findFrom border position [] = [] := rfl

theorem findFrom_misses {front rest : List Char} (misses : pattern.Misses front rest)
    (border : Option Char) (position : Nat) :
    pattern.findFrom border position (front ++ rest) =
      pattern.findFrom (front.getLast?.or border) (position + front.length) rest := by
  induction front generalizing border position with
  | nil => simp
  | cons c front ih =>
    rw [misses_cons] at misses
    rw [findFrom,List.cons_append,piecesFrom,misses.1,piecesFrom_eq,List.filterMap_append]
    change pattern.findFrom (some c) (position + 1) (front ++ rest) = _
    rw [ih misses.2,List.length_cons,getLast?_cons_or,Nat.add_assoc,Nat.add_comm 1]

theorem piecesFrom_skip (front rest : List Char) (border : Option Char) (position : Nat) :
    pattern.piecesFrom front.length border position (front ++ rest) [] =
      pattern.piecesFrom 0 (front.getLast?.or border) (position + front.length) rest [] := by
  induction front generalizing border position with
  | nil => simp
  | cons c front ih =>
    rw [List.cons_append,List.length_cons,piecesFrom,ih,getLast?_cons_or,Nat.add_assoc,Nat.add_comm 1]

theorem findFrom_found {front rest : List Char} {border : Option Char} {position : Nat}
    {found : Match} (nonempty : front ≠ [])
    (here : pattern.matchAt border position (front ++ rest) = some found)
    (stop : found.stop = position + front.length) :
    pattern.findFrom border position (front ++ rest) =
      found :: pattern.findFrom (front.getLast?.or border) (position + front.length) rest := by
  obtain ⟨c,front,rfl⟩ := List.exists_cons_of_ne_nil nonempty
  rw [List.length_cons] at stop
  rw [List.cons_append] at here
  have skip : found.stop - position - 1 = front.length := by omega
  rw [findFrom,List.cons_append,piecesFrom,here]
  simp only
  rw [if_neg (by omega),piecesFrom_eq,skip,piecesFrom_skip,List.filterMap_append,List.length_cons,
    List.getLast?_cons]
  simp only [List.reverse_cons,List.reverse_nil,List.nil_append,List.filterMap_cons,
    List.filterMap_nil,Piece.match?,List.singleton_append,findFrom]
  congr 3
  · cases front.getLast? <;> rfl
  · omega

/-- A match lies where it was looked for and is the text from there on. -/
theorem extent_of_matchAt {border : Option Char} {position : Nat} {text : List Char} {found : Match}
    (matched : pattern.matchAt border position text = some found) :
    found.start = position ∧ found.stop = position + found.text.length ∧
      ∃ rest, text = found.text ++ rest := by
  obtain ⟨stop,way,rfl⟩ := reaches_of_matchAt matched
  obtain ⟨⟨front,_,starts,reached⟩,_⟩ := (over_true pattern).of_reaches way
  dsimp only at starts reached ⊢
  rw [reached,Nat.add_sub_cancel_left,starts,List.take_left]
  exact ⟨rfl,rfl,stop.rest,rfl⟩

/-- Where the pattern matches at a place of the text, a search finds something there or before. -/
theorem exists_searchFrom {before back : List Char} {border : Option Char} {position : Nat}
    {found : Match} (here : pattern.matchAt (before.getLast?.or border) (position + before.length)
      back = some found) : ∃ first, pattern.searchFrom border position (before ++ back) = some first ∧
        first.start ≤ position + before.length := by
  induction before generalizing border position with
  | nil => exact ⟨found,searchFrom_found here,Nat.le_of_eq (extent_of_matchAt here).1⟩
  | cons c before ih =>
    rw [getLast?_cons_or,List.length_cons,Nat.add_comm before.length,← Nat.add_assoc] at here
    rw [List.cons_append,searchFrom,List.length_cons]
    split
    · next first matched => exact ⟨first,rfl,by have := (extent_of_matchAt matched).1; omega⟩
    · obtain ⟨first,searched,start⟩ := ih here
      exact ⟨first,searched,by omega⟩

theorem findFrom_kept {c : Char} {rest : List Char} {border : Option Char} {position : Nat}
    (empty : ∀ found, pattern.matchAt border position (c :: rest) = some found →
      found.stop ≤ position) :
    pattern.findFrom border position (c :: rest) = pattern.findFrom (some c) (position + 1) rest := by
  have kept : pattern.piecesFrom 0 border position (c :: rest) [] =
      .kept c :: pattern.piecesFrom 0 (some c) (position + 1) rest [] := by
    rw [piecesFrom]
    split
    · next found matched => rw [if_pos (empty found matched),piecesFrom_eq]; rfl
    · rw [piecesFrom_eq]; rfl
  rw [findFrom,kept]
  rfl

/-- Along a text match by match: a character at which none is found comes first, or a match. -/
@[elab_as_elim]
theorem byMatches (pattern : Pattern) {motive : List Char → Option Char → Nat → Prop}
    (nil : ∀ before position, motive [] before position)
    (kept : ∀ c rest before position, (∀ found,
      pattern.matchAt before position (c :: rest) = some found → found.stop ≤ position) →
        motive rest (some c) (position + 1) → motive (c :: rest) before position)
    (matched : ∀ (found : Match) rest before, found.text ≠ [] →
      pattern.matchAt before found.start (found.text ++ rest) = some found →
        found.stop = found.start + found.text.length →
          motive rest (found.text.getLast?.or before) found.stop →
            motive (found.text ++ rest) before found.start) :
    ∀ text before position, motive text before position
  | [], before, position => nil before position
  | c :: rest, before, position => by
    by_cases proper : ∃ found, pattern.matchAt before position (c :: rest) = some found ∧
        position < found.stop
    · obtain ⟨found,here,further⟩ := proper
      obtain ⟨start,stop,more,shape⟩ := extent_of_matchAt here
      have nonempty : found.text ≠ [] := by
        intro empty
        rw [stop,empty] at further
        exact Nat.lt_irrefl _ further
      have shorter : more.length < (c :: rest).length := by
        rw [shape,List.length_append]
        have := List.length_pos_of_ne_nil nonempty
        omega
      have above := byMatches pattern nil kept matched more (found.text.getLast?.or before) found.stop
      rw [shape] at here ⊢
      rw [← start] at here stop ⊢
      exact matched found more before nonempty here stop above
    · refine kept c rest before position ?_ (byMatches pattern nil kept matched rest _ _)
      intro found here
      by_contra further
      exact proper ⟨found,here,Nat.lt_of_not_le further⟩
termination_by text => text.length
decreasing_by all_goals simp only [List.length_cons] at *; omega

/-- Matches follow each other and do not overlap. -/
theorem pairwise_findFrom (pattern : Pattern) (text : List Char) (border : Option Char)
    (position : Nat) :
    (∀ found ∈ pattern.findFrom border position text, position ≤ found.start) ∧
      (pattern.findFrom border position text).Pairwise fun first second =>
        first.stop ≤ second.start := by
  induction text, border, position using byMatches pattern with
  | nil => exact ⟨nofun,.nil⟩
  | kept c rest before position empty ih =>
    rw [findFrom_kept empty]
    exact ⟨fun found member => Nat.le_of_succ_le (ih.1 found member),ih.2⟩
  | matched found rest before nonempty here stop ih =>
    rw [findFrom_found nonempty here stop,← stop,List.forall_mem_cons,List.pairwise_cons]
    refine ⟨⟨Nat.le_refl _,?_⟩,ih⟩
    intro other member
    have later := ih.1 other member
    omega

/-- A last character that never counts for a match adds none. -/
theorem findFrom_concat {c : Char} (inert : ∀ border position text,
      pattern.matchAt border position (text ++ [c]) = pattern.matchAt border position text)
    (text : List Char) (border : Option Char) (position : Nat) :
    pattern.findFrom border position (text ++ [c]) = pattern.findFrom border position text := by
  induction text, border, position using byMatches pattern with
  | nil before position =>
    refine findFrom_kept fun found matched => ?_
    have empty := inert before position []
    rw [List.nil_append,matched] at empty
    obtain ⟨_,stop,rest,shape⟩ := extent_of_matchAt empty.symm
    rw [stop,(List.append_eq_nil_iff.mp shape.symm).1]
    exact Nat.le_refl _
  | kept d rest before position none ih =>
    rw [List.cons_append,findFrom_kept none,findFrom_kept,ih]
    intro found matched
    rw [← List.cons_append,inert] at matched
    exact none found matched
  | matched found rest before nonempty here stop ih =>
    have again := inert before found.start (found.text ++ rest)
    rw [here,List.append_assoc] at again
    rw [findFrom_found nonempty here stop,List.append_assoc,findFrom_found nonempty again stop,← stop,ih]

/-- A place at which the pattern matches lies in a match that is found. -/
theorem mem_findFrom_of_matchAt {text : List Char} {border : Option Char} {position place : Nat}
    (inside : place < text.length)
    (fits : ∀ border, ∃ found, pattern.matchAt border (position + place) (text.drop place) =
      some found ∧ position + place < found.stop) :
    ∃ found ∈ pattern.findFrom border position text,
      found.start ≤ position + place ∧ position + place < found.stop := by
  induction text, border, position using byMatches pattern generalizing place with
  | nil => exact absurd inside (Nat.not_lt_zero _)
  | kept c rest before position empty ih =>
    rw [findFrom_kept empty]
    cases place with
    | zero =>
      obtain ⟨found,here,further⟩ := fits before
      exact absurd (empty found here) (Nat.not_le_of_lt further)
    | succ place =>
      have step : position + (place + 1) = position + 1 + place := by omega
      rw [step] at fits ⊢
      exact ih (Nat.lt_of_succ_lt_succ inside) fits
  | matched found rest before nonempty here stop ih =>
    rw [findFrom_found nonempty here stop,← stop]
    by_cases covered : place < found.text.length
    · exact ⟨found,List.mem_cons_self,by omega,by omega⟩
    · obtain ⟨place,rfl⟩ := Nat.exists_eq_add_of_le (Nat.le_of_not_lt covered)
      have step : found.start + (found.text.length + place) = found.stop + place := by omega
      rw [step,List.drop_length_add_append] at fits
      rw [step]
      obtain ⟨other,member,reach⟩ := ih (by rw [List.length_append] at inside; omega) fits
      exact ⟨other,List.mem_cons_of_mem _ member,reach⟩

end Pattern

end JavaAtlas
