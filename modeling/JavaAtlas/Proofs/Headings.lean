import JavaAtlas.Proofs.Members
import JavaAtlas.Proofs.Sites

/-! Methods read from a class in which they were written, with parameters and with clauses that name
what is thrown. Each heading is found as it stands, so that none hides the next, and its line is the
signature. -/
namespace JavaAtlas
open Lexical (isInert maskComments maskLiterals)

/-- A declaration with a text of parameters and the names of what is thrown, if anything is. -/
structure Heading extends Declaration where
  parameters : List Char
  thrown : List (List Char)
  flat : ∀ c ∈ parameters, c ∉ ['(',')','"','\'','/']
  dotted : ∀ name ∈ thrown, name ≠ [] ∧ ∀ c ∈ name, Header.isNameChar c = true

namespace Heading
open Declaration (indent margin spaced throwing body)

section Written
variable (heading : Heading)

/-- The heading as it is written in front of the body. -/
def written : List Char :=
  spaced heading.tokens ++
    (heading.name ++ '(' :: (heading.parameters ++ ')' :: throwing heading.thrown))

/-- The lines of a method without statements. -/
def lines : List Char :=
  indent ++ (heading.written ++ ([' ','\x7b','\n'] ++ (indent ++ ['\x7d','\n'])))

theorem parameters_flat : ∀ c ∈ heading.parameters, c ≠ '(' ∧ c ≠ ')' := by
  intro c member
  have apart := heading.flat c member
  simp only [List.mem_cons,not_or] at apart
  exact ⟨apart.1,apart.2.1⟩

theorem thrown_names : ∀ name ∈ heading.thrown, ∀ c ∈ name, Header.isNameChar c = true :=
  fun name member => (heading.dotted name member).2

theorem head_heading : ∀ c ∈ heading.head, Method.isHeadChar c = true := by
  intro c member
  rw [Declaration.head_eq] at member
  rcases List.mem_append.mp member with front | inside
  · exact (by decide : ∀ c ∈ margin, Method.isHeadChar c = true) c front
  · rcases Declaration.mem_spaced inside with rfl | ⟨token,among,member⟩
    · rfl
    · exact Method.isHeadChar_of_isTypeChar ((heading.words token among).2 c member)

theorem clause_throwing : ∀ c ∈ throwing heading.thrown ++ [' '], Method.isClauseChar c = true := by
  intro c member
  rcases List.mem_append.mp member with inside | space
  · exact Declaration.clauseChar_of_mem_throwing heading.thrown_names inside
  · rw [List.mem_singleton.mp space]
    rfl

/-- The parts of the match that is found where the heading is written. -/
def shape : Method.Shape where
  lead := heading.head
  name := heading.name
  gap := []
  parameters := heading.parameters
  clause := throwing heading.thrown ++ [' ']
  heading := heading.head_heading
  named := heading.named
  letters := heading.letters
  spaced := List.forall_mem_nil _
  balanced := by simpa using Method.Balanced.flat heading.parameters_flat .nil
  throwing := heading.clause_throwing

theorem text_shape (rest : List Char) : heading.shape.text ++ rest =
    heading.head ++ (heading.name ++ (body heading.parameters heading.thrown ++ rest)) := by
  simp [shape,Method.Shape.text,Method.Shape.call,Method.Shape.finish,body]

theorem matchAt_shape (border : Option Char) (position : Nat) (rest : List Char) :
    Method.pattern.matchAt border position (heading.shape.text ++ rest) =
      some (heading.shape.found position) := by
  let start : Cursor := ⟨position,border,heading.shape.text ++ rest,[]⟩
  let stop := (heading.toDeclaration.called start).past (body heading.parameters heading.thrown)
  have takes : Method.pattern.Takes start stop :=
    heading.takes_text heading.parameters_flat heading.thrown_names (heading.text_shape rest)
  have reached : stop.position = position + heading.shape.text.length := by
    have length := congrArg List.length (heading.text_shape [])
    simp only [List.append_nil,List.length_append] at length
    simp only [stop,start,Declaration.called,Cursor.past,Cursor.hold,length,Nat.add_assoc]
  have captures : stop.captures = (heading.shape.found position).captures := by
    simp [stop,start,Declaration.called,Cursor.past,Cursor.hold,Method.Shape.found,shape]
  rw [Pattern.matchAt_of_takes takes,reached,captures,Nat.add_sub_cancel_left,List.take_left]
  rfl

theorem exists_last {names : List (List Char)} (given : names ≠ [])
    (dotted : ∀ name ∈ names, name ≠ [] ∧ ∀ c ∈ name, Header.isNameChar c = true) :
    ∃ front last, [',',' '].intercalate names = front ++ [last] ∧ Header.isNameChar last = true := by
  induction names with
  | nil => exact absurd rfl given
  | cons name names ih =>
    rw [List.forall_mem_cons] at dotted
    cases names with
    | nil =>
      rcases name.eq_nil_or_concat with rfl | ⟨front,last,rfl⟩
      · exact absurd rfl dotted.1.1
      · exact ⟨front,last,by simp,dotted.1.2 last (by simp)⟩
    | cons other names =>
      obtain ⟨front,last,shape,letter⟩ := ih (List.cons_ne_nil other names) dotted.2
      exact ⟨name ++ [',',' '] ++ front,last,
        by rw [List.intercalate_cons_cons,shape,← List.append_assoc],letter⟩

/-- What is dropped behind a clause leaves the clause. -/
theorem collapse_throwing {names : List (List Char)}
    (dotted : ∀ name ∈ names, name ≠ [] ∧ ∀ c ∈ name, Header.isNameChar c = true) :
    Text.dropEndWhile Method.isTrailing (Text.collapse (throwing names ++ [' '] ++ ['\x7b'])) =
      Text.collapse (throwing names) := by
  cases names with
  | nil => decide
  | cons name names =>
    obtain ⟨front,last,shape,letter⟩ := exists_last (List.cons_ne_nil name names) dotted
    have solid := isBlank_of_isNameChar letter
    have stays : Method.isTrailing last = false := by
      rw [Method.isTrailing,Bool.or_eq_false_iff,beq_eq_false_iff_ne,beq_eq_false_iff_ne]
      constructor
      all_goals
        rintro rfl
        exact absurd letter (by decide)
    have whole : throwing (name :: names) = " throws ".toList ++ front ++ [last] := by
      rw [throwing,shape,List.append_assoc]
      simp
    have behind : Text.dropEndWhile Method.isTrailing (Text.collapse [' ','\x7b']) = [] := by decide
    have parts : " throws ".toList ++ front ++ [last] ++ [' '] ++ ['\x7b'] =
        (" throws ".toList ++ front) ++ last :: [' ','\x7b'] := by simp
    rw [whole,parts,Text.collapse_append solid,Text.collapse_append solid,
      Text.dropEndWhile_append_cons stays,behind]
    rfl

/-- The line of the heading in one line is the heading. -/
theorem signature_shape :
    Text.dropEndWhile Method.isTrailing (Text.singleSpaced
      (Method.lineOf heading.shape (indent ++ spaced heading.tokens) heading.parameters)) =
        Text.collapse heading.written := by
  have front : (Text.collapse (indent ++ spaced heading.tokens)).dropWhile Text.isBlank =
      Text.collapse (spaced heading.tokens) := by
    obtain ⟨token,tokens,typed⟩ := List.exists_cons_of_ne_nil heading.typed
    have words := heading.words token (by rw [typed]; exact List.mem_cons_self)
    obtain ⟨c,others,shape⟩ := List.exists_cons_of_ne_nil words.1
    have solid : Text.isBlank c = false :=
      Declaration.solid_of_isTypeChar (words.2 c (by rw [shape]; exact List.mem_cons_self))
    have first : spaced heading.tokens = c :: (others ++ ' ' :: spaced tokens) := by
      rw [typed,shape]
      simp [spaced]
    have margin : (Text.collapse indent).dropWhile Text.isBlank = [] := by decide
    rw [first,Text.collapse_append solid,Text.dropWhile_append_cons solid,margin,
      Text.collapse_solid solid]
    rfl
  have written : Text.collapse heading.written = Text.collapse (spaced heading.tokens) ++
      (heading.name ++ ('(' :: (Text.collapse heading.parameters ++
        ')' :: Text.collapse (throwing heading.thrown)))) := by
    obtain ⟨c,name,named⟩ := List.exists_cons_of_ne_nil heading.named
    have letters : ∀ d ∈ name, Text.isBlank d = false := by
      intro d member
      have inside : d ∈ heading.name := named ▸ List.mem_cons_of_mem c member
      exact Text.isBlank_of_isWord (heading.letters d inside)
    have solid : Text.isBlank c = false :=
      Text.isBlank_of_isWord (heading.letters c (by rw [named]; exact List.mem_cons_self))
    rw [Heading.written,named,List.cons_append,Text.collapse_append solid,Text.collapse_word letters,
      Text.collapse_solid (by rfl),Text.collapse_append (by rfl)]
    rfl
  rw [Method.signature_eq,written]
  simp only [shape]
  rw [collapse_throwing heading.dotted,front]
  rfl

section Found
variable {front more : List Char}

/-- Where a heading stands in a text without comments and literals its method is read. -/
theorem ofMatch_shape (blocks : List Match) {content : List Char}
    (whole : content = front ++ (heading.shape.text ++ more)) :
    ∃ method, Method.ofMatch blocks content content (heading.shape.found front.length) = some method ∧
      method.name = String.ofList heading.name ∧
      method.signature = String.ofList (Text.collapse heading.written) := by
  have captured : (heading.shape.found front.length).capture? 1 =
      some ⟨front.length + heading.head.length,
        front.length + heading.head.length + heading.name.length,heading.name⟩ := rfl
  have created : Text.words (Text.slice content front.length (front.length + heading.head.length)) =
      heading.tokens := by
    rw [@Text.slice_part _ _ _ front heading.head
      (heading.name ++ (body heading.parameters heading.thrown ++ more)) _ rfl rfl]
    · exact heading.words_head
    · rw [whole,heading.text_shape]
  obtain ⟨method,made⟩ : ∃ method,
      Method.ofMatch blocks content content (heading.shape.found front.length) = some method := by
    unfold Method.ofMatch
    rw [captured,Option.bind_some]
    dsimp only [Method.Shape.found]
    rw [created,if_neg]
    · exact ⟨_,rfl⟩
    · rw [Bool.or_eq_true,beq_iff_eq,List.contains_iff_mem,not_or]
      exact ⟨heading.free,heading.declares⟩
  obtain ⟨named,signed⟩ := Method.fields_of_made made
  refine ⟨method,made,named,?_⟩
  have margin : Text.afterLast '\n' (content.take (heading.shape.site front.length).name) =
      indent ++ spaced heading.tokens := by
    have taken : content.take (heading.shape.site front.length).name =
        front ++ '\n' :: (indent ++ spaced heading.tokens) := by
      have split : content = (front ++ heading.head) ++
          (heading.name ++ (body heading.parameters heading.thrown ++ more)) := by
        rw [whole,heading.text_shape,List.append_assoc]
      rw [split,List.take_left' (by simp [Method.Shape.site,shape])]
      rfl
    have oneLine : '\n' ∉ indent ++ spaced heading.tokens := by
      intro member
      rcases List.mem_append.mp member with space | inside
      · exact absurd space (by decide)
      · rcases Declaration.mem_spaced inside with same | ⟨token,among,member⟩
        · cases same
        · exact absurd ((heading.words token among).2 _ member) (by decide)
    rw [taken,Text.afterLast_append,Text.afterLast_of_not_mem oneLine]
  have written : Text.slice content (heading.shape.site front.length).name
      ((heading.shape.site front.length).body + 1) =
        heading.shape.call ++ (heading.shape.parameters ++ heading.shape.finish) := by
    rw [← heading.shape.slice_call whole,← heading.shape.slice_parameters whole,
      ← heading.shape.slice_finish whole,← Text.slice_join,← Text.slice_join]
    all_goals
      simp only [Method.Shape.site]
      omega
  rw [signed,← heading.signature_shape,Method.signatureOf,margin,written]
  rfl

end Found

end Written

section Unit

def sketch (method : Method) : String × String := (method.name,method.signature)

/-- What is read of a heading: its name, and the heading with single spaces for its blanks. -/
def read (heading : Heading) : String × String :=
  (String.ofList heading.name,String.ofList (Text.collapse heading.written))

/-- What is found of a heading, from the line break before it to the brace behind it, and the end of
its body. -/
def block (heading : Heading) : List Char := heading.shape.text ++ (margin ++ ['\x7d'])

theorem methods_blocks (blocks : List Match) (headings : List Heading) {front tail content : List Char}
    (misses : Method.pattern.Misses tail []) (border : Option Char)
    (whole : content = front ++ (headings.flatMap block ++ tail)) :
    ((Method.pattern.findFrom border front.length (headings.flatMap block ++ tail)).filterMap
      (Method.ofMatch blocks content content)).map sketch = headings.map read := by
  induction headings generalizing front border with
  | nil =>
    have missed := Pattern.findFrom_misses misses border front.length
    rw [List.append_nil,Pattern.findFrom_nil] at missed
    rw [List.flatMap_nil,List.nil_append,missed]
    rfl
  | cons heading headings ih =>
    have closing : Method.pattern.Misses (margin ++ ['\x7d']) (headings.flatMap block ++ tail) :=
      Method.misses_stop (by decide) (by decide) (by decide)
    have parts : (heading :: headings).flatMap block ++ tail =
        heading.shape.text ++ ((margin ++ ['\x7d']) ++ (headings.flatMap block ++ tail)) := by
      simp [block]
    rw [parts] at whole ⊢
    obtain ⟨method,made,named,signed⟩ := heading.ofMatch_shape blocks whole
    have later := @ih (front ++ block heading) ((margin ++ ['\x7d']).getLast?.or
      (heading.shape.text.getLast?.or border)) (by rw [whole,block]; simp)
    have nonempty : heading.shape.text ≠ [] := by simp [Method.Shape.text,Method.Shape.finish]
    have place : (front ++ block heading).length =
        front.length + heading.shape.text.length + (margin ++ ['\x7d']).length := by
      rw [block,List.length_append,List.length_append,Nat.add_assoc]
    rw [place] at later
    rw [Pattern.findFrom_found nonempty (heading.matchAt_shape _ _ _) rfl,
      Pattern.findFrom_misses closing,List.filterMap_cons_some made,List.map_cons,later,sketch,named,
      signed]
    rfl

def classLine : List Char := "class X \x7b".toList

/-- A class with methods of the headings. -/
def unit (headings : List Heading) : List Char :=
  classLine ++ '\n' :: (headings.flatMap lines ++ ['\x7d','\n'])

/-- The line break before a heading belongs to the line before it. -/
theorem lines_eq (headings : List Heading) (rest : List Char) :
    '\n' :: (headings.flatMap lines ++ rest) = headings.flatMap block ++ '\n' :: rest := by
  induction headings with
  | nil => rfl
  | cons heading headings ih =>
    have line : '\n' :: heading.lines = block heading ++ ['\n'] := by
      rw [block,List.append_assoc,heading.text_shape]
      simp [lines,written,body,Declaration.head,margin]
    rw [List.flatMap_cons,List.flatMap_cons,List.append_assoc,← List.cons_append,line,
      List.append_assoc,List.singleton_append,ih,List.append_assoc]

theorem unit_eq (headings : List Heading) :
    unit headings = classLine ++ (headings.flatMap block ++ ['\n','\x7d','\n']) := by
  rw [unit,lines_eq headings]

theorem inert_lines (heading : Heading) : ∀ c ∈ heading.lines, isInert c = true := by
  have margin : ∀ c ∈ indent, isInert c = true := by decide
  have parameters : ∀ c ∈ heading.parameters, isInert c = true := by
    intro c member
    have apart := heading.flat c member
    simp only [List.mem_cons,List.not_mem_nil,or_false,not_or] at apart
    simp [isInert,Lexical.isQuote,apart]
  intro c member
  simp only [lines,written,List.mem_append,List.mem_cons] at member
  rcases member with space | (tokens | name | rfl | inside | rfl | clause) | brace | space | back
  · exact margin c space
  · rcases Declaration.mem_spaced tokens with rfl | ⟨token,among,member⟩
    · rfl
    · exact (Declaration.inert_of_isTypeChar ((heading.words token among).2 c member)).1
  · exact isInert_of_isNameChar (isNameChar_of_isWord (heading.letters c name))
  · rfl
  · exact parameters c inside
  · rfl
  · exact Method.isInert_of_isClauseChar
      (Declaration.clauseChar_of_mem_throwing heading.thrown_names clause)
  · exact (by decide : ∀ c ∈ [' ','\x7b','\n'], isInert c = true) c (by simpa using brace)
  · exact margin c space
  · exact (by decide : ∀ c ∈ ['\x7d','\n'], isInert c = true) c (by simpa using back)

theorem inert_unit (headings : List Heading) : ∀ c ∈ unit headings, isInert c = true := by
  intro c member
  rcases List.mem_append.mp member with opening | member
  · exact (by decide : ∀ c ∈ classLine, isInert c = true) c opening
  rcases List.mem_cons.mp member with rfl | member
  · rfl
  rcases List.mem_append.mp member with inside | closing
  · obtain ⟨heading,_,inside⟩ := List.mem_flatMap.mp inside
    exact heading.inert_lines c inside
  · exact (by decide : ∀ c ∈ ['\x7d','\n'], isInert c = true) c closing

/-- From a class in which methods were written, these methods are read, in their order, each with its
name and with its heading as the signature. -/
theorem readAll_unit (headings : List Heading) :
    (Method.readAll (unit headings)).map sketch = headings.map read := by
  have comments : maskComments (unit headings) = unit headings := by
    have inert := Lexical.maskComments_inert (inert_unit headings) []
    rwa [List.append_nil,show maskComments [] = [] from rfl,List.append_nil] at inert
  have literals : maskLiterals (unit headings) = unit headings := by
    have inert := Lexical.maskLiterals_inert (inert_unit headings) []
    rwa [List.append_nil,show maskLiterals [] = [] from rfl,List.append_nil] at inert
  have opening : Method.pattern.Misses classLine
      (headings.flatMap block ++ ['\n','\x7d','\n']) :=
    @Method.misses_stop "class X ".toList _ '\x7b' (by decide) (by decide) (by decide)
  have found := methods_blocks (Method.javadocs (unit headings) (unit headings)) headings
    (@Method.misses_unopened ['\n','\x7d','\n'] [] (by decide)) (some '\x7b') (unit_eq headings)
  have before := Pattern.findFrom_misses opening none 0
  rw [← unit_eq] at before
  rw [← found,Method.readAll,comments,literals]
  exact congrArg (fun matches_ => (matches_.filterMap (Method.ofMatch
    (Method.javadocs (unit headings) (unit headings)) (unit headings) (unit headings))).map sketch)
    before

example : ∃ heading : Heading, heading.lines =
    "    public List<A> go(int a,\n  B b) throws c.D \x7b\n    \x7d\n".toList ∧
      heading.read = ("go","public List<A> go(int a, B b) throws c.D") := by
  refine ⟨{
    tokens := ["public".toList,"List<A>".toList]
    name := "go".toList
    parameters := "int a,\n  B b".toList
    thrown := ["c.D".toList]
    typed := by decide
    few := by decide
    words := by decide
    declares := by decide
    named := by decide
    letters := by decide
    free := by decide
    flat := by decide
    dotted := by decide },?_,?_⟩ <;> decide +kernel

end Unit

end Heading

end JavaAtlas
