import JavaAtlas.Proofs.Searching
import JavaAtlas.Proofs.Words

/-! Words that stand alone. A pattern that begins with a keyword is looked for in texts that are laid
out token by token with a gap behind each; a keyword stands alone there only where it is a token or
a part of one, which settles where the pattern can be found. -/
namespace JavaAtlas

namespace Text
variable {word text first second rest front back : List Char} {before : Option Char}

def OneWord (word : List Char) : Prop := word ≠ [] ∧ ∀ c ∈ word, isWord c = true

instance (word : List Char) : Decidable (OneWord word) :=
  inferInstanceAs (Decidable (word ≠ [] ∧ ∀ c ∈ word, isWord c = true))

/-- No word goes on from the first text into the second. -/
def Parted (first second : List Char) : Prop :=
  first.getLast?.any isWord = false ∨ second.head?.any isWord = false

/-- The word stands in the text with no word character next to it. -/
def Alone (word text : List Char) : Prop :=
  ∃ front back, text = front ++ (word ++ back) ∧ front.getLast?.any isWord = false ∧
    back.head?.any isWord = false

section Or
variable {near far : Option Char}

theorem any_or (one : near.any isWord = false) (two : far.any isWord = false) :
    (near.or far).any isWord = false := by
  cases near with
  | none => exact two
  | some c => exact one

theorem any_of_or (apart : (near.or far).any isWord = false) : near.any isWord = false := by
  cases near with
  | none => rfl
  | some c => exact apart

end Or

/-- Blanks, and at least one. -/
def Blank (gap : List Char) : Prop := gap ≠ [] ∧ ∀ c ∈ gap, isBlank c = true

theorem forall_head? {holds : Char → Prop} (nonempty : text ≠ []) (all : ∀ c ∈ text, holds c)
    (rest : List Char) : ∀ c, (text ++ rest).head? = some c → holds c := by
  obtain ⟨d,text,rfl⟩ := List.exists_cons_of_ne_nil nonempty
  intro c head
  cases head
  exact all _ List.mem_cons_self

theorem not_isWord_of_isBlank {c : Char} (blank : isBlank c = true) : isWord c = false := by
  rw [Bool.eq_false_iff]
  intro letter
  rw [isBlank_of_isWord letter] at blank
  cases blank

theorem Blank.any_head? {gap : List Char} (blank : Blank gap) (rest : List Char) :
    (gap ++ rest).head?.any isWord = false := by
  obtain ⟨c,gap,rfl⟩ := List.exists_cons_of_ne_nil blank.1
  exact not_isWord_of_isBlank (blank.2 c List.mem_cons_self)

theorem Blank.any_getLast? {gap : List Char} (blank : Blank gap) (front : List Char) :
    (front ++ gap).getLast?.any isWord = false := by
  obtain ⟨gap,c,rfl⟩ := (List.eq_nil_or_concat' gap).resolve_left blank.1
  simpa [List.getLast?_append] using not_isWord_of_isBlank (blank.2 c (by simp))

theorem OneWord.head? (one : OneWord word) (rest : List Char) :
    (word ++ rest).head?.any isWord = true := by
  obtain ⟨c,word,rfl⟩ := List.exists_cons_of_ne_nil one.1
  exact one.2 c List.mem_cons_self

theorem OneWord.getLast? (one : OneWord word) : word.getLast?.any isWord = true := by
  obtain ⟨word,c,rfl⟩ := (List.eq_nil_or_concat' word).resolve_left one.1
  simpa using one.2 c (by simp)

theorem OneWord.solid (one : OneWord word) (rest : List Char) :
    ∀ c, (word ++ rest).head? = some c → isBlank c = false :=
  forall_head? one.1 (fun c member => isBlank_of_isWord (one.2 c member)) rest

/-- A word does not go on into a text that is parted from the one in which it begins. -/
theorem OneWord.within (one : OneWord word) (nonempty : first ≠ []) (parted : Parted first second)
    (same : first ++ second = word ++ rest) : ∃ more, first = word ++ more ∧ rest = more ++ second := by
  rcases List.append_eq_append_iff.mp same with ⟨more,rfl,rfl⟩ | ⟨more,shape,behind⟩
  · cases more with
    | nil => exact ⟨[],by simp,rfl⟩
    | cons c more =>
      have last : first.getLast?.any isWord = true :=
        OneWord.getLast? ⟨nonempty,fun d member => one.2 d (List.mem_append_left _ member)⟩
      have next : isWord c = true := one.2 c (by simp)
      rcases parted with left | right
      · rw [last] at left
        cases left
      · rw [List.cons_append,List.head?_cons,Option.any_some,next] at right
        cases right
  · exact ⟨more,shape,behind⟩

theorem not_alone (one : OneWord word) (bare : ∀ c ∈ text, isWord c = false) :
    ¬ Alone word text := by
  rintro ⟨front,back,rfl,_⟩
  obtain ⟨c,word,rfl⟩ := List.exists_cons_of_ne_nil one.1
  have letter := one.2 c List.mem_cons_self
  rw [bare c (by simp)] at letter
  cases letter

namespace Alone

/-- A word that stands alone stands on one side of a place that no word goes across. -/
theorem split (one : OneWord word) (parted : Parted first second)
    (alone : Alone word (first ++ second)) : Alone word first ∨ Alone word second := by
  obtain ⟨front,back,shape,left,right⟩ := alone
  rcases List.append_eq_append_iff.mp shape with ⟨inside,rfl,behind⟩ | ⟨inside,rfl,behind⟩
  · rw [List.getLast?_append] at left
    exact .inr ⟨inside,back,behind,any_of_or left,right⟩
  · by_cases hollow : inside = []
    · subst hollow
      exact .inr ⟨[],back,behind.symm,rfl,right⟩
    · rw [Parted,List.getLast?_append_of_ne_nil _ hollow] at parted
      obtain ⟨more,rfl,rfl⟩ := one.within hollow parted behind.symm
      rw [List.head?_append] at right
      exact .inl ⟨front,more,rfl,left,any_of_or right⟩

theorem eq (alone : Alone word text) (letters : ∀ c ∈ text, isWord c = true) : text = word := by
  obtain ⟨front,back,rfl,left,right⟩ := alone
  have opening : front = [] := by
    rcases List.eq_nil_or_concat' front with empty | ⟨front,c,rfl⟩
    · exact empty
    · simp [List.getLast?_append,letters c (by simp)] at left
  have ending : back = [] := by
    cases back with
    | nil => rfl
    | cons c back => simp [letters c (by simp)] at right
  rw [opening,ending,List.nil_append,List.append_nil]

theorem refl (word : List Char) : Alone word word := ⟨[],[],by simp,rfl,rfl⟩

theorem append_left (alone : Alone word text) (parted : front.getLast?.any isWord = false) :
    Alone word (front ++ text) := by
  obtain ⟨inside,back,rfl,left,right⟩ := alone
  refine ⟨front ++ inside,back,by simp,?_,right⟩
  rw [List.getLast?_append]
  exact any_or left parted

/-- A word that stands alone among words joined by dots is one of them. -/
theorem dotted (one : OneWord word) {segments : List (List Char)}
    (words : ∀ segment ∈ segments, OneWord segment)
    (alone : Alone word (['.'].intercalate segments)) : word ∈ segments := by
  induction segments with
  | nil => exact absurd alone (not_alone one (List.forall_mem_nil _))
  | cons segment segments ih =>
    rw [List.forall_mem_cons] at words
    cases segments with
    | nil =>
      rw [List.intercalate_singleton] at alone
      rw [alone.eq words.1.2]
      exact List.mem_cons_self
    | cons other segments =>
      rw [List.intercalate_cons_cons,List.append_assoc] at alone
      rcases split one (.inr rfl) alone with here | behind
      · rw [here.eq words.1.2]
        exact List.mem_cons_self
      · rcases split one (.inl rfl) behind with dot | later
        · exact absurd dot (not_alone one (List.forall_mem_singleton.mpr rfl))
        · exact List.mem_cons_of_mem _ (ih words.2 later)

end Alone

/-- One of the keywords stands alone at the place. -/
def Ahead (keywords : List (List Char)) (before : Option Char) (rest : List Char) : Prop :=
  before.any isWord = false ∧ ∃ keyword ∈ keywords, ∃ more, rest = keyword ++ more ∧
    more.head?.any isWord = false

section Ahead
variable {keywords : List (List Char)}

theorem Ahead.alone (ahead : Ahead keywords (front.getLast?.or before) back) :
    ∃ keyword ∈ keywords, Alone keyword (front ++ back) := by
  obtain ⟨left,keyword,member,more,rfl,right⟩ := ahead
  exact ⟨keyword,member,front,more,rfl,any_of_or left,right⟩

/-- A keyword that begins in a text belongs to it, if the next text is parted from it. -/
theorem Ahead.alone_within (words : ∀ keyword ∈ keywords, OneWord keyword)
    (ahead : Ahead keywords (front.getLast?.or before) (back ++ rest)) (nonempty : back ≠ [])
    (parted : Parted (front ++ back) rest) : ∃ keyword ∈ keywords, Alone keyword (front ++ back) := by
  obtain ⟨left,keyword,member,more,shape,right⟩ := ahead
  rw [Parted,List.getLast?_append_of_ne_nil _ nonempty] at parted
  obtain ⟨inside,rfl,rfl⟩ := (words keyword member).within nonempty parted shape
  rw [List.head?_append] at right
  exact ⟨keyword,member,front,inside,rfl,any_of_or left,any_of_or right⟩

end Ahead

/-- Blanks in front of a text hold no word. -/
theorem Alone.behind {gap : List Char} (one : OneWord word) (blank : Blank gap)
    (alone : Alone word (gap ++ text)) : Alone word text := by
  rcases alone.split one (.inl (blank.any_getLast? [])) with inside | later
  · exact absurd inside (not_alone one fun c member => not_isWord_of_isBlank (blank.2 c member))
  · exact later

theorem Alone.between {gap space : List Char} (left : Blank gap) (right : Blank space)
    (front back : List Char) : Alone word (front ++ (gap ++ (word ++ (space ++ back)))) :=
  ⟨front ++ gap,space ++ back,by simp,left.any_getLast? front,
    right.any_head? back⟩

/-- Tokens, each with a gap behind it. -/
inductive Trail (gap : List Char → Prop) : List (List Char) → List Char → Prop where
  | nil : Trail gap [] []
  | cons {token between rest : List Char} {tokens : List (List Char)} :
      gap between → Trail gap tokens rest → Trail gap (token :: tokens) (token ++ (between ++ rest))

namespace Trail
variable {gap : List Char → Prop} {tokens one two : List (List Char)}

theorem eq_nil (trail : Trail gap [] text) : text = [] := by
  cases trail
  rfl

theorem uncons {token : List Char} (trail : Trail gap (token :: tokens) text) :
    ∃ between rest, text = token ++ (between ++ rest) ∧ gap between ∧ Trail gap tokens rest := by
  cases trail with
  | cons between others => exact ⟨_,_,rfl,between,others⟩

theorem split (trail : Trail gap (one ++ two) text) :
    ∃ front back, text = front ++ back ∧ Trail gap one front ∧ Trail gap two back := by
  induction one generalizing text with
  | nil => exact ⟨[],text,rfl,.nil,trail⟩
  | cons token one ih =>
    obtain ⟨between,rest,rfl,space,others⟩ := uncons trail
    obtain ⟨front,back,rfl,first,second⟩ := ih others
    exact ⟨_,back,by simp,.cons space first,second⟩

theorem any_getLast? (trail : Trail Blank tokens text) : text.getLast?.any isWord = false := by
  induction trail with
  | nil => rfl
  | @cons token between rest tokens blank _ ih =>
    rw [← List.append_assoc,List.getLast?_append]
    exact any_or ih (blank.any_getLast? token)

theorem forall_mem {holds : Char → Prop} (trail : Trail gap tokens text)
    (within : ∀ token ∈ tokens, ∀ c ∈ token, holds c)
    (between : ∀ space, gap space → ∀ c ∈ space, holds c) : ∀ c ∈ text, holds c := by
  induction trail with
  | nil => exact List.forall_mem_nil _
  | cons space _ ih =>
    rw [List.forall_mem_cons] at within
    simp only [List.forall_mem_append]
    exact ⟨within.1,between _ space,ih within.2⟩

/-- What stands alone among tokens stands alone in one of them. -/
theorem alone (trail : Trail Blank tokens text) (one : OneWord word) (alone : Alone word text) :
    ∃ token ∈ tokens, Alone word token := by
  induction trail with
  | nil => exact absurd alone (not_alone one (List.forall_mem_nil _))
  | @cons token between rest tokens blank _ ih =>
    rcases alone.split one (.inr (blank.any_head? rest)) with here | padded
    · exact ⟨token,List.mem_cons_self,here⟩
    · obtain ⟨other,member,inside⟩ := ih (padded.behind one blank)
      exact ⟨other,List.mem_cons_of_mem token member,inside⟩

theorem alone_of_mem (trail : Trail Blank tokens text) (member : word ∈ tokens)
    (more : List Char) : Alone word (text ++ more) := by
  induction trail with
  | nil => cases member
  | @cons token between rest tokens blank _ ih =>
    rcases List.mem_cons.mp member with rfl | later
    · rw [List.append_assoc,List.append_assoc]
      exact ⟨[],_,rfl,rfl,blank.any_head? (rest ++ more)⟩
    · rw [← List.append_assoc token,List.append_assoc]
      exact (ih later).append_left (blank.any_getLast? token)

end Trail

end Text

namespace Pattern
open Text (OneWord Alone Ahead Blank)
variable {pattern : Pattern} {keywords : List (List Char)} {keyword : List Char}

/-- A match of the pattern begins with a keyword that stands alone. -/
def Opens (keywords : List (List Char)) (pattern : Pattern) : Prop :=
  ∀ ⦃border position rest found⦄, pattern.matchAt border position rest = some found →
    Ahead keywords border rest

theorem Opens.alone (opens : pattern.Opens keywords) {text : List Char} {found : Match}
    (searched : pattern.search text = some found) : ∃ keyword ∈ keywords, Alone keyword text := by
  obtain ⟨before,back,rfl,here⟩ := matchAt_of_searchFrom searched
  exact (opens here).alone

/-- A search goes on behind a text in which no keyword stands alone. -/
theorem Opens.passes (opens : pattern.Opens keywords)
    (words : ∀ keyword ∈ keywords, OneWord keyword) {front rest : List Char}
    (parted : Text.Parted front rest) (free : ∀ keyword ∈ keywords, ¬ Alone keyword front)
    (border : Option Char) (position : Nat) :
    pattern.searchFrom border position (front ++ rest) =
      pattern.searchFrom (front.getLast?.or border) (position + front.length) rest := by
  apply searchFrom_passes
  rintro before back rfl further
  rw [Option.eq_none_iff_forall_ne_some]
  intro found here
  obtain ⟨keyword,member,alone⟩ := (opens here).alone_within words further parted
  exact free keyword member alone

/-- A search goes on behind a word at which the pattern does not match. -/
theorem Opens.passes_word (opens : pattern.Opens keywords) {front rest : List Char}
    (one : OneWord front) {border : Option Char} {position : Nat}
    (fails : pattern.matchAt border position (front ++ rest) = none) :
    pattern.searchFrom border position (front ++ rest) =
      pattern.searchFrom (front.getLast?.or border) (position + front.length) rest := by
  apply searchFrom_passes
  intro before back shape further
  by_cases here : before = []
  · subst here
    subst shape
    exact fails
  · rw [Option.eq_none_iff_forall_ne_some]
    intro found matched
    -- Inside the word a word character stands before the place.
    have inside : OneWord before :=
      ⟨here,fun c member => one.2 c (by rw [shape]; exact List.mem_append_left _ member)⟩
    have letter := inside.getLast?
    rw [Text.any_of_or (opens matched).1] at letter
    cases letter

section Cursors
variable {cursor middle next : Cursor}

theorem any_before_of_border (one : OneWord keyword) {more : List Char}
    (here : cursor.atBorder = true) (starts : cursor.rest = keyword ++ more) :
    cursor.before.any Text.isWord = false := by
  have letter := one.head? more
  rw [Cursor.atBorder,starts,letter] at here
  simpa using here

theorem blank_of_reaches (way : blanks1.Reaches cursor next) :
    ∃ gap, Blank gap ∧ cursor.Spells gap next := by
  obtain ⟨gap,nonempty,blank,spells⟩ := spells_of_longest1 way
  exact ⟨gap,⟨nonempty,blank⟩,spells⟩

theorem takes_blanks1 {gap more : List Char} (blank : Blank gap) (starts : cursor.rest = gap ++ more)
    (solid : ∀ c, more.head? = some c → Text.isBlank c = false) :
    blanks1.Takes cursor (cursor.past gap) :=
  takes_longest1_one starts blank.1 blank.2 solid

theorem takes_opening (one : OneWord keyword) {more : List Char}
    (left : cursor.before.any Text.isWord = false) (starts : cursor.rest = keyword ++ more) :
    border.Takes cursor cursor := by
  apply takes_border
  rw [Cursor.atBorder,left,starts,one.head? more]
  rfl

/-- Behind a word there is a border if no word character follows. -/
theorem atBorder_past (one : OneWord keyword) (cursor : Cursor) : (cursor.past keyword).atBorder =
    !(cursor.past keyword).rest.head?.any Text.isWord := by
  have last := one.getLast?
  cases ends : keyword.getLast? with
  | none =>
    rw [ends] at last
    cases last
  | some c =>
    rw [ends] at last
    have before : (cursor.past keyword).before = some c := by rw [Cursor.past,ends]; rfl
    rw [Cursor.atBorder,before,last]
    exact Bool.true_bne _

/-- A keyword between a border and blanks. -/
theorem ahead_of_reaches (one : OneWord keyword) (member : keyword ∈ keywords)
    (here : cursor.atBorder = true) (spells : cursor.Spells keyword middle)
    (gap : blanks1.Reaches middle next) : Ahead keywords cursor.before cursor.rest := by
  obtain ⟨gap,blank,further⟩ := blank_of_reaches gap
  refine ⟨any_before_of_border one here spells.1,keyword,member,middle.rest,spells.1,?_⟩
  rw [further.1]
  exact blank.any_head? _

end Cursors

end Pattern

end JavaAtlas
