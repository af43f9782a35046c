import JavaAtlas.Proofs.Clauses
import JavaAtlas.Proofs.Lexing

/-! Type heads as they are written. Between the tokens of a head stand blanks and comments, which the
mask leaves blank whatever the comments say; the keywords of the head then stand alone exactly where
they are tokens, and each fact of the header is what was written for it. -/
namespace JavaAtlas

namespace Lexical
open Text (Blank Trail)

/-- Blanks and complete comments. -/
inductive Mixed : List Char → Prop where
  | nil : Mixed []
  | blank {c : Char} {rest : List Char} : Text.isBlank c = true → Mixed rest → Mixed (c :: rest)
  | block {inside rest : List Char} : ¬commentClosing <:+: inside → Mixed rest →
      Mixed ('/' :: '*' :: (inside ++ (commentClosing ++ rest)))
  | line {inside rest : List Char} : '\n' ∉ inside → Mixed rest →
      Mixed ('/' :: '/' :: (inside ++ '\n' :: rest))

def Gap (between : List Char) : Prop := between ≠ [] ∧ Mixed between

theorem maskComments_isComment {text rest : List Char} (whole : IsComment text rest) :
    maskComments (text ++ rest) = blanked text ++ maskComments rest := by
  obtain ⟨inside,rfl⟩ := whole.opens
  exact maskComments_comment rfl whole.length

theorem isBlank_of_blanked {text : List Char} : ∀ c ∈ blanked text, Text.isBlank c = true := by
  intro c member
  rcases mem_blanked member with rfl | rfl <;> rfl

/-- The mask of the text is blank, and as long as the text. -/
def Fades (between : List Char) : Prop :=
  ∃ shown, shown.length = between.length ∧ (∀ c ∈ shown, Text.isBlank c = true) ∧
    ∀ more, maskComments (between ++ more) = shown ++ maskComments more

theorem Fades.cons {c : Char} {rest : List Char} (blank : Text.isBlank c = true)
    (fades : Fades rest) : Fades (c :: rest) := by
  obtain ⟨shown,length,blanks,masked⟩ := fades
  refine ⟨c :: shown,by rw [List.length_cons,List.length_cons,length],
    List.forall_mem_cons.mpr ⟨blank,blanks⟩,?_⟩
  intro more
  have inert : isInert c = true :=
    Method.isInert_of_isClauseChar (Method.isClauseChar_of_isBlank blank)
  rw [List.cons_append,maskComments_cons inert,masked]
  rfl

theorem Fades.comment {text rest : List Char} (whole : ∀ more, IsComment text (rest ++ more))
    (fades : Fades rest) : Fades (text ++ rest) := by
  obtain ⟨shown,length,blanks,masked⟩ := fades
  refine ⟨blanked text ++ shown,by simp [length,blanked],
    List.forall_mem_append.mpr ⟨isBlank_of_blanked,blanks⟩,?_⟩
  intro more
  rw [List.append_assoc,maskComments_isComment (whole more),masked,List.append_assoc]

theorem Mixed.fades {between : List Char} (mixed : Mixed between) : Fades between := by
  induction mixed with
  | nil => exact ⟨[],rfl,List.forall_mem_nil _,fun _ => rfl⟩
  | blank blank _ ih => exact ih.cons blank
  | @block inside rest closed _ ih =>
    have first : ¬commentClosing <:+: inside ++ ['*'] := by
      rw [List.infix_concat_iff,not_or]
      refine ⟨?_,closed⟩
      rintro ⟨front,same⟩
      have last := congrArg List.getLast? same
      rw [List.getLast?_append,List.getLast?_append] at last
      cases last
    simpa using Fades.comment (fun _ => IsComment.block first) ih
  | line oneLine _ ih => exact (ih.cons (c := '\n') rfl).comment fun _ => .line oneLine (.inr rfl)

/-- Behind the mask there are the same tokens with blanks between. -/
theorem masked_trail {tokens : List (List Char)} {text : List Char} (trail : Trail Gap tokens text)
    (inert : ∀ token ∈ tokens, ∀ c ∈ token, isInert c = true) :
    ∃ shown, Trail Blank tokens shown ∧
      ∀ more, maskComments (text ++ more) = shown ++ maskComments more := by
  induction trail with
  | nil => exact ⟨[],.nil,fun _ => rfl⟩
  | @cons token between rest tokens gap _ ih =>
    rw [List.forall_mem_cons] at inert
    obtain ⟨shown,trail,masked⟩ := ih inert.2
    obtain ⟨blanks,length,blank,faded⟩ := gap.2.fades
    have filled : blanks ≠ [] := by
      rintro rfl
      exact gap.1 (List.length_eq_zero_iff.mp length.symm)
    refine ⟨token ++ (blanks ++ shown),.cons ⟨filled,blank⟩ trail,?_⟩
    intro more
    rw [List.append_assoc,List.append_assoc,maskComments_inert inert.1,faded,masked,
      List.append_assoc,List.append_assoc]

end Lexical

namespace Header
open Text (OneWord Alone Blank Trail)

def interfaceWord : List Char := "interface".toList
def abstractWord : List Char := "abstract".toList
def packageWord : List Char := "package".toList
def publicWord : List Char := "public".toList

/-- The keywords that decide about a header. -/
def headWords : List (List Char) :=
  [classWord,interfaceWord,abstractWord,extendsWord,implementsWord]

theorem oneWord_head : ∀ keyword ∈ headWords, OneWord keyword := by decide

def IsName (name : List Char) : Prop := OneWord name ∧ name ∉ headWords

instance (name : List Char) : Decidable (IsName name) :=
  inferInstanceAs (Decidable (OneWord name ∧ name ∉ headWords))

/-- Names joined by dots. -/
structure DottedName where
  segments : List (List Char)
  given : segments ≠ []
  named : ∀ segment ∈ segments, IsName segment

def DottedName.text (name : DottedName) : List Char := ['.'].intercalate name.segments

inductive Kind where
  | ofClass (superclass : Option DottedName) (interfaces : List DottedName)
  | ofInterface (parents : List DottedName)

/-- A package and the head of a type, as they are written. -/
structure TypeHead where
  package : DottedName
  isPublic : Bool
  isAbstract : Bool
  name : List Char
  kind : Kind
  named : IsName name

/-- Names with commas between them. -/
def listed (names : List DottedName) : List (List Char) :=
  (names.map DottedName.text).intersperse [',']

def clause (keyword : List Char) : List DottedName → List (List Char)
  | [] => []
  | name :: names => keyword :: listed (name :: names)

def flag (given : Bool) (keyword : List Char) : List (List Char) :=
  if given then [keyword] else []

namespace Kind

def keyword : Kind → List Char
  | ofClass .. => classWord
  | ofInterface _ => interfaceWord

def extended : Kind → List DottedName
  | ofClass superclass _ => superclass.toList
  | ofInterface parents => parents

def implemented : Kind → List DottedName
  | ofClass _ interfaces => interfaces
  | ofInterface _ => []

def superclass : Kind → Option DottedName
  | ofClass superclass _ => superclass
  | ofInterface _ => none

/-- The names that are read as interfaces: those that a class implements or else the one that it
extends, and those that an interface extends. -/
def interfaces : Kind → List DottedName
  | ofClass superclass [] => superclass.toList
  | ofClass _ interfaces => interfaces
  | ofInterface parents => parents

def isInterface : Kind → Bool
  | ofClass .. => false
  | ofInterface _ => true

theorem keyword_class {kind : Kind} (other : kind.isInterface = false) : kind.keyword = classWord := by
  cases kind with
  | ofClass => rfl
  | ofInterface => cases other

theorem keyword_interface {kind : Kind} (same : kind.isInterface = true) :
    kind.keyword = interfaceWord := by
  cases kind with
  | ofClass => cases same
  | ofInterface => rfl

theorem interfaces_of_implemented {kind : Kind} (given : kind.implemented ≠ []) :
    kind.interfaces = kind.implemented := by
  cases kind with
  | ofInterface => exact absurd rfl given
  | ofClass superclass interfaces =>
    cases interfaces with
    | nil => exact absurd rfl given
    | cons => rfl

theorem interfaces_of_extended {kind : Kind} (extending : kind.implemented = []) :
    kind.interfaces = kind.extended := by
  cases kind with
  | ofInterface => rfl
  | ofClass superclass interfaces =>
    cases interfaces with
    | nil => rfl
    | cons => cases extending

theorem keyword_not_mem (kind : Kind) : kind.keyword ∉ clauseWords := by
  cases kind with
  | ofClass => exact (by decide : classWord ∉ clauseWords)
  | ofInterface => exact (by decide : interfaceWord ∉ clauseWords)

theorem keyword_mem (kind : Kind) : kind.keyword ∈ headWords := by
  cases kind with
  | ofClass => exact List.mem_cons_self
  | ofInterface => exact List.mem_cons_of_mem _ List.mem_cons_self

end Kind

namespace TypeHead
variable (head : TypeHead)

def opening : List (List Char) :=
  [packageWord,head.package.text,[';']] ++ flag head.isPublic publicWord

/-- The tokens before the clauses. -/
def lead : List (List Char) :=
  head.opening ++ (flag head.isAbstract abstractWord ++ [head.kind.keyword,head.name])

/-- The tokens before the body, with the brace that opens it. -/
def tokens : List (List Char) :=
  head.lead ++ (clause extendsWord head.kind.extended ++
    (clause implementsWord head.kind.implemented ++ [['\x7b']]))

/-- What is written in the head. -/
def header : Header where
  package := String.ofList head.package.text
  superclass := head.kind.superclass.map fun name => String.ofList name.text
  interfaces := head.kind.interfaces.map fun name => String.ofList name.text
  isInterface := head.kind.isInterface
  isAbstract := head.isAbstract && !head.kind.isInterface
  isRestResource := false

end TypeHead

section Tokens
variable {keyword token : List Char}

/-- Characters of the tokens and of the blanks between them. -/
def isShownChar (c : Char) : Bool := Method.isClauseChar c || c == ';' || c == '\x7b'

/-- A keyword stands in the token only if it is the token. -/
structure IsToken (token : List Char) : Prop where
  letters : ∀ c ∈ token, isShownChar c = true
  whole : ∀ keyword ∈ headWords, Alone keyword token → keyword = token

theorem isShownChar_of_isNameChar {c : Char} (letter : isNameChar c = true) :
    isShownChar c = true := by
  rw [isShownChar,Method.isClauseChar_of_isNameChar letter]
  rfl

theorem isShownChar_of_isBlank {c : Char} (blank : Text.isBlank c = true) : isShownChar c = true := by
  rw [isShownChar,Method.isClauseChar_of_isBlank blank]
  rfl

theorem isInert_of_isShownChar {c : Char} (shown : isShownChar c = true) :
    Lexical.isInert c = true := by
  rw [isShownChar,Bool.or_eq_true,Bool.or_eq_true,beq_iff_eq,beq_iff_eq] at shown
  rcases shown with (clause | rfl) | rfl
  · exact Method.isInert_of_isClauseChar clause
  · rfl
  · rfl

theorem isToken_word (one : OneWord token) : IsToken token where
  letters c member := isShownChar_of_isNameChar (isNameChar_of_isWord (one.2 c member))
  whole _ _ alone := (alone.eq one.2).symm

theorem isToken_mark {c : Char} (mark : c ∈ [',',';','\x7b']) : IsToken [c] where
  letters := by
    rw [List.forall_mem_singleton]
    exact (by decide : ∀ c ∈ [',',';','\x7b'], isShownChar c = true) c mark
  whole keyword member alone := by
    refine absurd alone (Text.not_alone (oneWord_head keyword member) ?_)
    rw [List.forall_mem_singleton]
    exact (by decide : ∀ c ∈ [',',';','\x7b'], Text.isWord c = false) c mark

namespace DottedName
variable (name : DottedName)

theorem not_alone (member : keyword ∈ headWords) : ¬ Alone keyword name.text := by
  intro alone
  have segment := alone.dotted (oneWord_head keyword member) fun segment inside =>
    (name.named segment inside).1
  exact (name.named keyword segment).2 member

theorem letters : ∀ c ∈ name.text, isNameChar c = true :=
  Text.forall_mem_intercalate (by decide) fun segment among c inside =>
    isNameChar_of_isWord ((name.named segment among).1.2 c inside)

theorem text_ne_nil : name.text ≠ [] := by
  obtain ⟨segment,others,shape⟩ := List.exists_cons_of_ne_nil name.given
  have first := (name.named segment (by rw [shape]; exact List.mem_cons_self)).1.1
  rw [text,shape,Text.intercalate_cons]
  exact List.append_ne_nil_of_left_ne_nil first _

theorem isToken : IsToken name.text where
  letters c member := isShownChar_of_isNameChar (name.letters c member)
  whole _ member alone := absurd alone (name.not_alone member)

theorem text_not_mem : name.text ∉ headWords :=
  fun member => name.not_alone member (Alone.refl name.text)

end DottedName

theorem mem_flag {given : Bool} : token ∈ flag given keyword ↔ given = true ∧ token = keyword := by
  rw [flag]
  split <;> simp [*]

theorem mem_listed {names : List DottedName} (member : token ∈ listed names) :
    token = [','] ∨ ∃ name ∈ names, token = name.text := by
  induction names with
  | nil => cases member
  | cons name names ih =>
    cases names with
    | nil => exact .inr ⟨name,List.mem_cons_self,List.mem_singleton.mp member⟩
    | cons other names =>
      rw [listed,List.map_cons,List.map_cons,List.intersperse_cons_cons,← List.map_cons,List.mem_cons,
        List.mem_cons] at member
      rcases member with rfl | rfl | later
      · exact .inr ⟨name,List.mem_cons_self,rfl⟩
      · exact .inl rfl
      · rcases ih later with comma | ⟨found,among,shape⟩
        · exact .inl comma
        · exact .inr ⟨found,List.mem_cons_of_mem name among,shape⟩

theorem mem_clause {names : List DottedName} (member : token ∈ clause keyword names) :
    token = keyword ∧ names ≠ [] ∨ token ∈ listed names := by
  cases names with
  | nil => cases member
  | cons name names =>
    exact (List.mem_cons.mp member).imp (fun same => ⟨same,List.cons_ne_nil name names⟩) id

theorem isToken_listed {names : List DottedName} : ∀ token ∈ listed names, IsToken token := by
  intro token member
  rcases mem_listed member with rfl | ⟨name,_,rfl⟩
  · exact isToken_mark (by decide)
  · exact name.isToken

theorem not_mem_listed (member : keyword ∈ headWords) (names : List DottedName) :
    keyword ∉ listed names := by
  intro inside
  rcases mem_listed inside with rfl | ⟨name,_,rfl⟩
  · exact absurd member (by decide)
  · exact name.text_not_mem member

theorem isToken_clause (member : keyword ∈ headWords) {names : List DottedName} :
    ∀ token ∈ clause keyword names, IsToken token := by
  intro token inside
  rcases mem_clause inside with ⟨rfl,_⟩ | inside
  · exact isToken_word (oneWord_head token member)
  · exact isToken_listed token inside

end Tokens

namespace TypeHead
variable (head : TypeHead) {keyword token : List Char}

theorem mem_opening : token ∈ head.opening ↔ token = packageWord ∨ token = head.package.text ∨
    token = [';'] ∨ (head.isPublic = true ∧ token = publicWord) := by
  simp only [opening,List.mem_append,mem_flag,List.mem_cons,List.not_mem_nil,or_false,or_assoc]

theorem mem_lead : token ∈ head.lead ↔ token ∈ head.opening ∨
    (head.isAbstract = true ∧ token = abstractWord) ∨ token = head.kind.keyword ∨
      token = head.name := by
  simp only [lead,List.mem_append,mem_flag,List.mem_cons,List.not_mem_nil,or_false]

theorem mem_tokens : token ∈ head.tokens ↔ token ∈ head.lead ∨
    token ∈ clause extendsWord head.kind.extended ∨
      token ∈ clause implementsWord head.kind.implemented ∨ token = ['\x7b'] := by
  simp only [tokens,List.mem_append,List.mem_singleton]

theorem isToken : ∀ token ∈ head.tokens, IsToken token := by
  intro token member
  rcases head.mem_tokens.mp member with lead | inside | inside | rfl
  · rcases head.mem_lead.mp lead with opening | ⟨_,rfl⟩ | rfl | rfl
    · rcases head.mem_opening.mp opening with rfl | rfl | rfl | ⟨_,rfl⟩
      · exact isToken_word (by decide)
      · exact head.package.isToken
      · exact isToken_mark (by decide)
      · exact isToken_word (by decide)
    · exact isToken_word (by decide)
    · exact isToken_word (oneWord_head _ head.kind.keyword_mem)
    · exact isToken_word head.named.1
  · exact isToken_clause (by decide) token inside
  · exact isToken_clause (by decide) token inside
  · exact isToken_mark (by decide)

theorem not_mem_opening (member : keyword ∈ headWords) : keyword ∉ head.opening := by
  intro inside
  rcases head.mem_opening.mp inside with rfl | rfl | rfl | ⟨_,rfl⟩
  · exact absurd member (by decide)
  · exact head.package.text_not_mem member
  · exact absurd member (by decide)
  · exact absurd member (by decide)

/-- The keywords among the tokens of a head, each with what it says. -/
theorem keyword_of_mem (member : keyword ∈ headWords) (inside : keyword ∈ head.tokens) :
    (keyword = abstractWord ∧ head.isAbstract = true) ∨
      (keyword = classWord ∧ head.kind.isInterface = false) ∨
        (keyword = interfaceWord ∧ head.kind.isInterface = true) ∨
          (keyword = extendsWord ∧ head.kind.extended ≠ []) ∨
            (keyword = implementsWord ∧ head.kind.implemented ≠ []) := by
  have further {word : List Char} {names : List DottedName} (inside : keyword ∈ clause word names) :
      keyword = word ∧ names ≠ [] :=
    (mem_clause inside).resolve_right (not_mem_listed member names)
  rcases head.mem_tokens.mp inside with lead | inside | inside | rfl
  · rcases head.mem_lead.mp lead with opening | ⟨given,same⟩ | same | rfl
    · exact absurd opening (head.not_mem_opening member)
    · exact .inl ⟨same,given⟩
    · cases kind : head.kind with
      | ofClass =>
        rw [kind] at same
        exact .inr (.inl ⟨same,rfl⟩)
      | ofInterface =>
        rw [kind] at same
        exact .inr (.inr (.inl ⟨same,rfl⟩))
    · exact absurd member head.named.2
  · exact .inr (.inr (.inr (.inl (further inside))))
  · exact .inr (.inr (.inr (.inr (further inside))))
  · exact absurd member (by decide)

theorem not_mem_lead (member : keyword ∈ clauseWords) : keyword ∉ head.lead := by
  have known : keyword ∈ headWords := (by decide : clauseWords ⊆ headWords) member
  intro inside
  rcases head.mem_lead.mp inside with opening | ⟨_,rfl⟩ | rfl | rfl
  · exact head.not_mem_opening known opening
  · exact absurd member (by decide)
  · exact head.kind.keyword_not_mem member
  · exact head.named.2 known

theorem isAbstract_of_mem (inside : abstractWord ∈ head.tokens) : head.isAbstract = true := by
  simpa +decide using head.keyword_of_mem (by decide) inside

theorem isClass_of_mem (inside : classWord ∈ head.tokens) : head.kind.isInterface = false := by
  simpa +decide using head.keyword_of_mem (by decide) inside

theorem isInterface_of_mem (inside : interfaceWord ∈ head.tokens) : head.kind.isInterface = true := by
  simpa +decide using head.keyword_of_mem (by decide) inside

theorem extended_of_mem (inside : extendsWord ∈ head.tokens) : head.kind.extended ≠ [] := by
  simpa +decide using head.keyword_of_mem (by decide) inside

theorem implemented_of_mem (inside : implementsWord ∈ head.tokens) : head.kind.implemented ≠ [] := by
  simpa +decide using head.keyword_of_mem (by decide) inside

end TypeHead

section Found
variable {pattern : Pattern} {tokens : List (List Char)} {keyword text : List Char}
  {names : List DottedName}

theorem mem_of_alone (trail : Trail Blank tokens text) (sound : ∀ token ∈ tokens, IsToken token)
    (member : keyword ∈ headWords) (alone : Alone keyword text) : keyword ∈ tokens := by
  obtain ⟨token,among,inside⟩ := trail.alone (oneWord_head keyword member) alone
  rwa [(sound token among).whole keyword member inside]

/-- A search goes on behind tokens none of which is a keyword of the pattern. -/
theorem searchFrom_behind {keywords : List (List Char)} (opens : pattern.Opens keywords)
    (known : keywords ⊆ headWords) (trail : Trail Blank tokens text)
    (sound : ∀ token ∈ tokens, IsToken token) (free : ∀ keyword ∈ keywords, keyword ∉ tokens)
    (rest : List Char) (border : Option Char) (position : Nat) :
    pattern.searchFrom border position (text ++ rest) =
      pattern.searchFrom (text.getLast?.or border) (position + text.length) rest :=
  opens.passes (fun keyword member => oneWord_head keyword (known member))
    (.inl trail.any_getLast?) (fun keyword member alone =>
      free keyword member (mem_of_alone trail sound (known member) alone)) border position

theorem known_clause : clauseWords ⊆ headWords := by decide

theorem free_listed (trail : Trail Blank (listed names) text) :
    ∀ keyword ∈ clauseWords, ¬ Alone keyword text := by
  intro keyword member alone
  exact not_mem_listed (known_clause member) names
    (mem_of_alone trail isToken_listed (known_clause member) alone)

theorem clauseChar_listed (trail : Trail Blank (listed names) text) :
    ∀ c ∈ text, Method.isClauseChar c = true := by
  refine trail.forall_mem ?_ fun space blank c member =>
    Method.isClauseChar_of_isBlank (blank.2 c member)
  intro token member c inside
  rcases mem_listed member with rfl | ⟨name,_,rfl⟩
  · rw [List.mem_singleton.mp inside]
    rfl
  · exact Method.isClauseChar_of_isNameChar (name.letters c inside)

/-- The tokens of a clause with names: its keyword, and behind a gap the names. -/
theorem uncons_clause (given : names ≠ []) (trail : Trail Blank (clause keyword names) text) :
    ∃ gap inside, text = keyword ++ (gap ++ inside) ∧ Blank gap ∧ Trail Blank (listed names) inside := by
  obtain ⟨name,names,rfl⟩ := List.exists_cons_of_ne_nil given
  exact Trail.uncons trail

theorem head_listed (given : names ≠ []) (trail : Trail Blank (listed names) text) :
    text ≠ [] ∧ ∀ c, text.head? = some c → Text.isBlank c = false := by
  obtain ⟨name,names,rfl⟩ := List.exists_cons_of_ne_nil given
  obtain ⟨others,shape⟩ : ∃ others, listed (name :: names) = name.text :: others := by
    cases names with
    | nil => exact ⟨[],rfl⟩
    | cons => exact ⟨_,rfl⟩
  rw [shape] at trail
  obtain ⟨gap,rest,rfl,_,_⟩ := trail.uncons
  exact ⟨List.append_ne_nil_of_left_ne_nil name.text_ne_nil _,
    Text.forall_head? name.text_ne_nil (fun c member => isBlank_of_isNameChar (name.letters c member)) _⟩

/-- The names of a clause before the body are the interfaces, if the search comes to the clause. -/
theorem interfacesOf_clause {whole more : List Char} {border : Option Char} {position : Nat}
    (member : keyword ∈ clauseWords) (given : names ≠ []) (parted : border.any Text.isWord = false)
    (trail : Trail Blank (clause keyword names) text)
    (comes : interfacePattern.search whole =
      interfacePattern.searchFrom border position (text ++ '\x7b' :: more)) :
    interfacesOf whole = names.map fun name => String.ofList name.text := by
  obtain ⟨gap,inside,rfl,blank,others⟩ := uncons_clause given trail
  obtain ⟨filled,solid⟩ := head_listed given others
  obtain ⟨found,here,captured⟩ := matchAt_clause position parted member blank filled solid
    (clauseChar_listed others) (free_listed others) more
  rw [← captured] at others
  have searched : interfacePattern.search whole = some found := by
    rw [comes,List.append_assoc,List.append_assoc]
    exact Pattern.searchFrom_found here
  have dotted : ∀ name ∈ names.map DottedName.text, name ≠ [] ∧ ∀ c ∈ name, isNameChar c = true := by
    intro text among
    obtain ⟨name,_,rfl⟩ := List.mem_map.mp among
    exact ⟨name.text_ne_nil,name.letters⟩
  rw [interfacesOf_eq (by simpa using given) dotted others searched,List.map_map]
  rfl

theorem mem_clause_self (given : names ≠ []) : keyword ∈ clause keyword names := by
  obtain ⟨name,names,rfl⟩ := List.exists_cons_of_ne_nil given
  exact List.mem_cons_self

theorem clauseChar_of_head {keyword : List Char} (member : keyword ∈ clauseWords) :
    ∀ c ∈ keyword, Method.isClauseChar c = true := fun c inside =>
  Method.isClauseChar_of_isNameChar (isNameChar_of_isWord ((oneWord_clause keyword member).2 c inside))

/-- A clause with another one behind it is passed over. -/
theorem searchFrom_clause {other first next : List Char} {others : List DottedName}
    {border : Option Char} (position : Nat) (member : keyword ∈ clauseWords)
    (another : other ∈ clauseWords) (given : names ≠ []) (further : others ≠ [])
    (one : Trail Blank (clause keyword names) first) (two : Trail Blank (clause other others) next)
    (more : List Char) : ∃ place,
      interfacePattern.searchFrom border position (first ++ (next ++ '\x7b' :: more)) =
        interfacePattern.searchFrom (first.getLast?.or border) place (next ++ '\x7b' :: more) := by
  obtain ⟨gap,inside,rfl,blank,listed⟩ := uncons_clause given one
  obtain ⟨space,behind,rfl,spaced,last⟩ := uncons_clause further two
  let names := inside ++ (other ++ (space ++ behind))
  have letters : ∀ c ∈ names, Method.isClauseChar c = true := by
    simp only [names,List.forall_mem_append]
    exact ⟨clauseChar_listed listed,clauseChar_of_head another,
      fun c member => Method.isClauseChar_of_isBlank (spaced.2 c member),clauseChar_listed last⟩
  have alone : Alone other names := by
    have inner := (two.alone_of_mem (mem_clause_self further) []).append_left listed.any_getLast?
    rwa [List.append_nil] at inner
  have free : ∀ keyword ∈ clauseWords, ¬ Alone keyword (gap ++ inside) := fun keyword member alone =>
    free_listed listed keyword member (alone.behind (oneWord_clause keyword member) blank)
  have parted : Text.Parted (gap ++ inside) ((other ++ (space ++ behind)) ++ '\x7b' :: more) := by
    left
    rw [List.getLast?_append]
    exact Text.any_or listed.any_getLast? (blank.any_getLast? [])
  have passed := @matchAt_passed keyword names gap border other position member blank letters another
    alone more
  have shape : gap ++ (names ++ '\x7b' :: more) =
      (gap ++ inside) ++ ((other ++ (space ++ behind)) ++ '\x7b' :: more) := by
    simp only [names,List.append_assoc]
  have word := opens_interface.passes_word (oneWord_clause keyword member) passed
  rw [shape,opens_interface.passes oneWord_clause parted free,← Option.or_assoc,
    ← List.getLast?_append,← List.append_assoc] at word
  exact ⟨_,word⟩

end Found

section Read
variable (head : TypeHead) {shown : List Char} (trail : Trail Blank head.tokens shown)

/-- The mask of a head and its body. -/
def closed (shown : List Char) : List Char := shown ++ ['\x7d']

include trail

theorem mem_of_alone_closed {keyword : List Char} (member : keyword ∈ headWords)
    (alone : Alone keyword (closed shown)) : keyword ∈ head.tokens := by
  have one := oneWord_head keyword member
  rcases alone.split one (.inr rfl) with here | brace
  · exact mem_of_alone trail head.isToken member here
  · exact absurd brace (Text.not_alone one (List.forall_mem_singleton.mpr rfl))

theorem packageOf_closed : packageOf (closed shown) = String.ofList head.package.text := by
  obtain ⟨gap,_,rfl,gapped,trail⟩ := Trail.uncons trail
  obtain ⟨space,_,rfl,spaced,trail⟩ := trail.uncons
  obtain ⟨behind,rest,rfl,_,_⟩ := trail.uncons
  have whole := @packageOf_spaced gap head.package.text space (behind ++ rest ++ ['\x7d']) gapped.1
    (List.forall_mem_append.mpr ⟨gapped.2,spaced.2⟩) head.package.text_ne_nil head.package.letters
  rw [closed]
  simp only [List.append_assoc] at whole ⊢
  exact whole

theorem superclassOf_none (absent : extendsWord ∉ head.tokens ∨ classWord ∉ head.tokens) :
    superclassOf (closed shown) = none := by
  rw [superclassOf,Option.map_eq_none_iff,Option.eq_none_iff_forall_ne_some]
  intro found searched
  rcases absent with lacks | lacks
  · exact lacks (mem_of_alone_closed head trail (by decide) (alone_of_superclass searched))
  · obtain ⟨keyword,member,alone⟩ := opens_superclass.alone searched
    rw [List.mem_singleton.mp member] at alone
    exact lacks (mem_of_alone_closed head trail (by decide) alone)

theorem superclassOf_class {base : DottedName} {interfaces : List DottedName}
    (kind : head.kind = .ofClass (some base) interfaces) :
    superclassOf (closed shown) = some (String.ofList base.text) := by
  have shape : head.tokens = (head.opening ++ flag head.isAbstract abstractWord) ++
      ([classWord,head.name,extendsWord,base.text] ++
        (clause implementsWord interfaces ++ [['\x7b']])) := by
    rw [TypeHead.tokens,TypeHead.lead,kind,List.append_assoc,List.append_assoc,List.append_assoc]
    rfl
  have sound := head.isToken
  rw [shape] at trail sound
  obtain ⟨front,_,rfl,first,trail⟩ := Trail.split trail
  obtain ⟨part,others,rfl,second,_⟩ := trail.split
  have free : classWord ∉ head.opening ++ flag head.isAbstract abstractWord := by
    rw [List.mem_append,mem_flag,not_or]
    exact ⟨head.not_mem_opening (by decide),fun abstract => absurd abstract.2 (by decide)⟩
  have comes := searchFrom_behind opens_superclass (by decide) first
    (fun token member => sound token (List.mem_append_left _ member))
    (List.forall_mem_singleton.mpr free) (part ++ (others ++ ['\x7d'])) none 0
  have parted : (front.getLast?.or none).any Text.isWord = false := Text.any_or first.any_getLast? rfl
  obtain ⟨found,here,captured⟩ := matchAt_superclass (0 + front.length) parted second head.named.1
    base.text_ne_nil base.letters (others ++ ['\x7d'])
  have searched : superclassPattern.search (closed (front ++ (part ++ others))) = some found := by
    rw [closed,List.append_assoc,List.append_assoc]
    exact comes.trans (Pattern.searchFrom_found here)
  rw [superclassOf,searched,Option.map_some,captured]

theorem superclassOf_closed : superclassOf (closed shown) =
    head.kind.superclass.map fun name => String.ofList name.text := by
  cases kind : head.kind with
  | ofInterface parents =>
    refine superclassOf_none head trail (.inr fun inside => ?_)
    have other := head.isClass_of_mem inside
    rw [kind] at other
    cases other
  | ofClass superclass interfaces =>
    cases superclass with
    | none =>
      refine superclassOf_none head trail (.inl fun inside => ?_)
      have given := head.extended_of_mem inside
      rw [kind] at given
      exact absurd rfl given
    | some base => exact superclassOf_class head trail kind

theorem interfacesOf_none (extended : head.kind.extended = [])
    (implemented : head.kind.implemented = []) : interfacesOf (closed shown) = [] := by
  have absent : interfacePattern.search (closed shown) = none := by
    rw [Option.eq_none_iff_forall_ne_some]
    intro found searched
    obtain ⟨keyword,member,alone⟩ := opens_interface.alone searched
    have inside := mem_of_alone_closed head trail (known_clause member) alone
    simp only [clauseWords,List.mem_cons,List.not_mem_nil,or_false] at member
    rcases member with rfl | rfl
    · exact head.implemented_of_mem inside implemented
    · exact head.extended_of_mem inside extended
  rw [interfacesOf,absent]

theorem interfacesOf_closed : interfacesOf (closed shown) =
    head.kind.interfaces.map fun name => String.ofList name.text := by
  by_cases bare : head.kind.extended = [] ∧ head.kind.implemented = []
  · rw [interfacesOf_none head trail bare.1 bare.2,Kind.interfaces_of_extended bare.2,bare.1]
    rfl
  have sound := head.isToken
  rw [TypeHead.tokens] at trail sound
  obtain ⟨front,_,rfl,first,trail⟩ := Trail.split trail
  obtain ⟨one,_,rfl,second,trail⟩ := trail.split
  obtain ⟨two,_,rfl,third,trail⟩ := trail.split
  obtain ⟨gap,_,rfl,_,trail⟩ := trail.uncons
  obtain rfl := trail.eq_nil
  let rest := '\x7b' :: (gap ++ ['\x7d'])
  have whole : closed (front ++ (one ++ (two ++ (['\x7b'] ++ (gap ++ []))))) =
      front ++ (one ++ (two ++ rest)) := by
    simp [closed,rest]
  have parted : (front.getLast?.or none).any Text.isWord = false := Text.any_or first.any_getLast? rfl
  have comes := searchFrom_behind opens_interface known_clause first
    (fun token member => sound token (List.mem_append_left _ member))
    (fun keyword => head.not_mem_lead) (one ++ (two ++ rest)) none 0
  rw [whole]
  by_cases extended : head.kind.extended = []
  · have implemented : head.kind.implemented ≠ [] := fun empty => bare ⟨extended,empty⟩
    rw [extended] at second
    obtain rfl := second.eq_nil
    rw [Kind.interfaces_of_implemented implemented]
    exact interfacesOf_clause List.mem_cons_self implemented parted third comes
  · by_cases implemented : head.kind.implemented = []
    · rw [implemented] at third
      obtain rfl := third.eq_nil
      rw [Kind.interfaces_of_extended implemented]
      exact interfacesOf_clause (List.mem_cons_of_mem _ List.mem_cons_self) extended parted second comes
    · -- The search meets the first of both clauses and finds no body behind its names.
      rw [Kind.interfaces_of_implemented implemented]
      obtain ⟨place,passed⟩ := searchFrom_clause (0 + front.length)
        (List.mem_cons_of_mem _ List.mem_cons_self) List.mem_cons_self extended implemented second
        third (gap ++ ['\x7d'])
      exact interfacesOf_clause List.mem_cons_self implemented
        (Text.any_or second.any_getLast? parted) third (comes.trans passed)

theorem isInterface_closed : ((declares ["interface"] head.name).search (closed shown)).isSome =
    head.kind.isInterface := by
  rw [Bool.eq_iff_iff]
  constructor
  · intro searched
    obtain ⟨found,searched⟩ := Option.isSome_iff_exists.mp searched
    have alone := alone_of_declares (by decide) searched "interface" List.mem_cons_self
    exact head.isInterface_of_mem (mem_of_alone_closed head trail (by decide) alone)
  · intro kind
    have shape : head.tokens = (head.opening ++ flag head.isAbstract abstractWord) ++
        ([interfaceWord] ++ (head.name :: (clause extendsWord head.kind.extended ++
          (clause implementsWord head.kind.implemented ++ [['\x7b']])))) := by
      rw [TypeHead.tokens,TypeHead.lead,Kind.keyword_interface kind,List.append_assoc,
        List.append_assoc,List.append_assoc]
      rfl
    rw [shape] at trail
    obtain ⟨front,_,rfl,first,trail⟩ := Trail.split trail
    obtain ⟨part,_,rfl,second,trail⟩ := trail.split
    obtain ⟨gap,rest,rfl,blank,_⟩ := trail.uncons
    have found := @declares_written ["interface"] head.name part front gap first.any_getLast?
      (List.cons_ne_nil _ _) (by decide) second head.named.1 blank (rest ++ ['\x7d'])
    simpa only [closed,List.append_assoc] using found

theorem isAbstract_closed :
    ((declares ["abstract","class"] head.name).search (closed shown)).isSome =
      (head.isAbstract && !head.kind.isInterface) := by
  rw [Bool.eq_iff_iff,Bool.and_eq_true,Bool.not_eq_true']
  constructor
  · intro searched
    obtain ⟨found,searched⟩ := Option.isSome_iff_exists.mp searched
    have alone := alone_of_declares (by decide) searched
    rw [List.forall_mem_cons,List.forall_mem_singleton] at alone
    exact ⟨head.isAbstract_of_mem (mem_of_alone_closed head trail (by decide) alone.1),
      head.isClass_of_mem (mem_of_alone_closed head trail (by decide) alone.2)⟩
  · rintro ⟨abstract,kind⟩
    have shape : head.tokens = head.opening ++ ([abstractWord,classWord] ++ (head.name ::
        (clause extendsWord head.kind.extended ++ (clause implementsWord head.kind.implemented ++
          [['\x7b']])))) := by
      rw [TypeHead.tokens,TypeHead.lead,Kind.keyword_class kind,abstract,List.append_assoc]
      rfl
    rw [shape] at trail
    obtain ⟨front,_,rfl,first,trail⟩ := Trail.split trail
    obtain ⟨part,_,rfl,second,trail⟩ := trail.split
    obtain ⟨gap,rest,rfl,blank,_⟩ := trail.uncons
    have found := @declares_written ["abstract","class"] head.name part front gap
      first.any_getLast? (List.cons_ne_nil _ _) (by decide) second head.named.1 blank
      (rest ++ ['\x7d'])
    simpa only [closed,List.append_assoc] using found

theorem hasRestMarker_closed : hasRestMarker (closed shown) = false := by
  have letters : ∀ c ∈ shown, isShownChar c = true :=
    trail.forall_mem (fun token member => (head.isToken token member).letters)
      fun space blank c member => isShownChar_of_isBlank (blank.2 c member)
  have apart : '@' ∉ closed shown := by
    rw [closed,List.mem_append,not_or]
    exact ⟨fun member => absurd (letters '@' member) (by decide),by decide⟩
  rw [hasRestMarker,List.any_eq_false]
  intro marker member found
  have sign := (by decide : ∀ marker ∈ restMarkers, '@' ∈ marker.toList) marker member
  exact apart (Text.mem_of_occursIn found '@' sign)

omit trail in
/-- The head of a type is read as it was written, whatever blanks and complete comments stand between
its tokens. -/
theorem read_written {text : List Char} (written : Trail Lexical.Gap head.tokens text) :
    read (text ++ ['\x7d']) head.name = head.header := by
  have inert : ∀ token ∈ head.tokens, ∀ c ∈ token, Lexical.isInert c = true := by
    intro token member c inside
    exact isInert_of_isShownChar ((head.isToken token member).letters c inside)
  obtain ⟨shown,trail,masked⟩ := Lexical.masked_trail written inert
  have mask : Lexical.maskComments (text ++ ['\x7d']) = closed shown := masked ['\x7d']
  rw [read,mask,ofMasked,packageOf_closed head trail,superclassOf_closed head trail,
    interfacesOf_closed head trail,isInterface_closed head trail,isAbstract_closed head trail,
    hasRestMarker_closed head trail,TypeHead.header]

omit trail in
/-- A head with other heads and a quote in its comments. -/
theorem read_written_commented : ∃ (head : TypeHead) (text : List Char),
    Trail Lexical.Gap head.tokens text ∧ text ++ ['\x7d'] =
      ("package/* package x; class M extends X \x7b*/a.b ; abstract class N// \" interface N\n " ++
        "extends c.D implements E ,\tf.G \x7b \x7d").toList ∧
    read (text ++ ['\x7d']) head.name = head.header ∧ head.header = {
      package := "a.b"
      superclass := some "c.D"
      interfaces := ["E","f.G"]
      isInterface := false
      isAbstract := true
      isRestResource := false } := by
  let head : TypeHead := {
    package := ⟨["a".toList,"b".toList],by decide,by decide⟩
    isPublic := false
    isAbstract := true
    name := "N".toList
    kind := .ofClass (some ⟨["c".toList,"D".toList],by decide,by decide⟩)
      [⟨["E".toList],by decide,by decide⟩,⟨["f".toList,"G".toList],by decide,by decide⟩]
    named := by decide }
  have space : Lexical.Gap [' '] := ⟨List.cons_ne_nil _ _,.blank rfl .nil⟩
  have tab : Lexical.Gap ['\t'] := ⟨List.cons_ne_nil _ _,.blank rfl .nil⟩
  have heads : Lexical.Gap ('/' :: '*' :: (" package x; class M extends X \x7b".toList ++
      (Lexical.commentClosing ++ []))) := ⟨List.cons_ne_nil _ _,.block (by decide +kernel) .nil⟩
  have quote : Lexical.Gap ('/' :: '/' :: (" \" interface N".toList ++ '\n' :: [' '])) :=
    ⟨List.cons_ne_nil _ _,.line (by decide) (.blank rfl .nil)⟩
  have written : Trail Lexical.Gap head.tokens _ :=
    .cons heads (.cons space (.cons space (.cons space (.cons space (.cons quote (.cons space
      (.cons space (.cons space (.cons space (.cons tab (.cons space (.cons space .nil))))))))))))
  exact ⟨head,_,written,by decide +kernel,read_written head written,by decide +kernel⟩

end Read

end Header

end JavaAtlas
