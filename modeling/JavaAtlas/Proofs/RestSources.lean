import JavaAtlas.Proofs.Members
import JavaAtlas.Proofs.Ownership
import JavaAtlas.Proofs.Preambles
import Mathlib.Data.List.Destutter

/-! Resources read end to end: a class with a path, as its source is written line by line, gives
one operation for each method with a verb, at the path of the class joined with that of the method.
The paths may hold whatever looks like a comment, a brace or a parenthesis elsewhere. -/
namespace JavaAtlas

/-- A text for a literal, with neither blanks nor quotes nor escapes. -/
abbrev PathText : Type := {text : List Char // ∀ c ∈ text, Text.isBlank c = false ∧ c ≠ '"' ∧ c ≠ '\\'}

/-- The verb and the path of an operation, where it has them, and the head of its method. -/
structure RestMethod where
  verb : Option {verb : String // verb ∈ Endpoint.verbs}
  path : Option PathText
  declaration : Declaration

structure RestSource where
  package : List Char
  name : List Char
  path : PathText
  methods : List RestMethod
  packaged : package ≠ [] ∧ ∀ c ∈ package, Header.isNameChar c = true
  named : name ≠ [] ∧ ∀ c ∈ name, Text.isWord c = true

/-- A text with every run of slashes collapsed to one. -/
def singleSlashed (text : List Char) : List Char :=
  text.destutter fun before c => ¬(before = '/' ∧ c = '/')

namespace RestMethod

def lines (method : RestMethod) : List (List Char) :=
  (method.verb.map fun verb => "    @".toList ++ verb.val.toList).toList ++
    (method.path.map fun path => "    @Path(\"".toList ++ path.val ++ "\")".toList).toList ++
    ["    ".toList ++ [' '].intercalate (method.declaration.tokens ++ [method.declaration.name]) ++
      "() \x7b".toList,"    \x7d".toList]

/-- The path of the class, and that of the method behind a slash unless it is missing or empty. -/
def pathIn (method : RestMethod) (classPath : List Char) : List Char :=
  match method.path with
  | some ⟨c :: path,_⟩ => singleSlashed (classPath ++ '/' :: c :: path)
  | _ => singleSlashed classPath

end RestMethod

namespace RestSource

def lines (source : RestSource) : List (List Char) :=
  ["package ".toList ++ source.package ++ [';'],[],"@Path(\"".toList ++ source.path.val ++ "\")".toList,
    "public class ".toList ++ source.name ++ " \x7b".toList] ++
    source.methods.flatMap RestMethod.lines ++ [['\x7d']]

def text (source : RestSource) : List Char := ['\n'].intercalate source.lines

def file (source : RestSource) : String := String.ofList (source.name ++ ".java".toList)

/-- The operation of a method with a verb. -/
def endpoint? (source : RestSource) (method : RestMethod) : Option Endpoint :=
  method.verb.map fun verb =>
    { httpMethod := verb.val
      path := String.ofList (method.pathIn source.path.val)
      methodName := String.ofList method.declaration.name
      className := String.ofList source.name
      package := String.ofList source.package
      consumes := none
      produces := none }

end RestSource

theorem collapseSlashes_eq (text : List Char) : Endpoint.collapseSlashes text = singleSlashed text := by
  fun_induction Endpoint.collapseSlashes text with
  | case1 => rfl
  | case2 => rfl
  | case3 c next rest both ih =>
    rw [Bool.and_eq_true,beq_iff_eq,beq_iff_eq] at both
    obtain ⟨rfl,rfl⟩ := both
    rw [ih]
    simp [singleSlashed,List.destutter,List.destutter']
  | case4 c next rest apart ih =>
    rw [Bool.and_eq_true,beq_iff_eq,beq_iff_eq] at apart
    rw [ih]
    simp [singleSlashed,List.destutter,List.destutter',apart]

section Marks

def Mark.ofVerb (verb : {verb : String // verb ∈ Endpoint.verbs}) : Mark where
  name := verb.val.toList
  named := (by decide : ∀ verb ∈ Endpoint.verbs, verb.toList ≠ []) verb.val verb.property
  letters := (by decide : ∀ verb ∈ Endpoint.verbs, ∀ c ∈ verb.toList, Header.isNameChar c = true)
    verb.val verb.property
  plain := by intro inside held; cases held

def Mark.ofPath (path : PathText) : Mark where
  name := "Path".toList
  quoted := some path.val
  named := by decide
  letters := by decide
  plain := by
    intro inside same c member
    cases same
    obtain ⟨solid,quote,escape⟩ := path.property c member
    refine ⟨quote,escape,?_⟩
    rintro rfl
    cases solid

variable (verb : {verb : String // verb ∈ Endpoint.verbs}) (path : PathText)

theorem simpleName_ofVerb : (Mark.ofVerb verb).use.simpleName = verb.val := by
  have same : ∀ verb ∈ Endpoint.verbs, simpleName (String.ofList verb.toList) = verb := by decide
  exact same verb.val verb.property

theorem simpleName_ofPath : (Mark.ofPath path).use.simpleName = "Path" := by
  have same : simpleName (String.ofList "Path".toList) = "Path" := by decide
  exact same

theorem value_ofPath : (Mark.ofPath path).use.value = some (String.ofList path.val) :=
  Mark.value_use rfl

end Marks

namespace RestMethod
open Declaration (margin spaced)

def marks (method : RestMethod) : List Mark :=
  (method.verb.map Mark.ofVerb).toList ++ (method.path.map Mark.ofPath).toList

theorem calm_marks (method : RestMethod) :
    ∀ mark ∈ method.marks, ∀ c ∈ mark.name, c ≠ 'p' ∧ c ≠ 's' := by
  intro mark member
  rcases List.mem_append.mp member with member | member
  · obtain ⟨verb,_,rfl⟩ := Option.map_eq_some_iff.mp (Option.mem_toList.mp member)
    exact (by decide : ∀ verb ∈ Endpoint.verbs, ∀ c ∈ verb.toList, c ≠ 'p' ∧ c ≠ 's')
      verb.val verb.property
  · obtain ⟨path,_,rfl⟩ := Option.map_eq_some_iff.mp (Option.mem_toList.mp member)
    exact (by decide : ∀ c ∈ "Path".toList, c ≠ 'p' ∧ c ≠ 's')

def member (method : RestMethod) : Member := ⟨method.marks,method.declaration,method.calm_marks⟩

end RestMethod

namespace Declaration

theorem intercalate_tokens (tokens : List (List Char)) (name : List Char) :
    [' '].intercalate (tokens ++ [name]) = spaced tokens ++ name := by
  induction tokens with
  | nil => simp [spaced]
  | cons token tokens ih =>
    obtain ⟨next,others,shape⟩ := List.exists_cons_of_ne_nil
      (List.append_ne_nil_of_right_ne_nil tokens (List.cons_ne_nil name []))
    rw [List.cons_append,shape,List.intercalate_cons_cons,← shape,ih]
    simp [spaced]

end Declaration

namespace RestMethod

theorem text_member (method : RestMethod) :
    method.member.text = method.lines.flatMap fun line => ['\n'] ++ line := by
  have declared : method.declaration.text = '\n' :: ("    ".toList ++ [' '].intercalate
      (method.declaration.tokens ++ [method.declaration.name]) ++ "() \x7b".toList) := by
    rw [Declaration.intercalate_tokens]
    simp [Declaration.text,Declaration.head,Declaration.indent]
  unfold Member.text Member.rest lines member marks
  simp only
  rw [declared]
  cases method.verb <;> cases method.path <;>
    simp [AnnotationUse.marked,Declaration.margin,Declaration.indent,Mark.text,Mark.brackets,
      Mark.ofVerb,Mark.ofPath]

end RestMethod

namespace RestSource
open Declaration (margin)
open AnnotationUse (marked outlined)
open Lexical (maskComments maskLiterals)
variable (source : RestSource)

def mark : Mark := Mark.ofPath source.path

def members : List Member := source.methods.map RestMethod.member

/-- The declaration of the package up to the semicolon, and that of the class up to the brace. -/
def packageLine : List Char := "package".toList ++ (' ' :: source.package)

def classLine : List Char := "class".toList ++ (' ' :: (source.name ++ [' ']))

def gap : List Char := ['\n','\n']

def lead : List Char := "\npublic ".toList

def close : List Char := ['\n','\x7d']

theorem text_eq : source.text = source.packageLine ++ ';' :: (marked gap [source.mark] ++
    (lead ++ (source.classLine ++ '\x7b' :: (source.members.flatMap Member.text ++ close)))) := by
  have members : source.members.flatMap Member.text =
      (source.methods.flatMap RestMethod.lines).flatMap fun line => ['\n'] ++ line := by
    rw [RestSource.members,List.flatMap_map,List.flatMap_assoc]
    exact List.flatMap_congr fun method _ => method.text_member
  have mark : source.mark.text = "@Path(\"".toList ++ source.path.val ++ "\")".toList := by
    simp [Mark.text,Mark.brackets,mark,Mark.ofPath]
  have package : "package ".toList = "package".toList ++ [' '] := rfl
  have opening (rest : List Char) : '\n' :: ("public class ".toList ++ rest) =
      lead ++ ("class".toList ++ ' ' :: rest) := rfl
  have brace : " \x7b".toList = [' ','\x7b'] := rfl
  unfold text lines
  rw [List.append_assoc,List.cons_append,Text.intercalate_cons,members,package,brace]
  unfold marked packageLine classLine gap close
  simp only [List.flatMap_cons,List.flatMap_append,List.flatMap_nil,mark,List.cons_append,
    List.nil_append,List.append_assoc,opening]

/-- The source with its literals blank. -/
def outline : List Char :=
  source.packageLine ++ ';' :: (outlined gap [source.mark] ++
    (lead ++ (source.classLine ++ '\x7b' :: (source.members.flatMap Member.outline ++ close))))

theorem gap_gap : Gap gap := .newLine (by decide) (by decide)

theorem gap_lead : Gap lead := .newLine (by decide) (by decide)

/-- What holds of the letters of names holds of the line that declares the package. -/
theorem forall_packageLine {holds : Char → Prop} (keyword : ∀ c ∈ "package".toList, holds c)
    (space : holds ' ') (letters : ∀ c, Header.isNameChar c = true → holds c) :
    ∀ c ∈ source.packageLine, holds c := by
  intro c member
  unfold packageLine at member
  simp only [List.mem_append,List.mem_cons] at member
  rcases member with front | rfl | name
  · exact keyword c front
  · exact space
  · exact letters c (source.packaged.2 c name)

theorem forall_classLine {holds : Char → Prop} (modifier : ∀ c ∈ lead, holds c)
    (keyword : ∀ c ∈ "class".toList, holds c) (space : holds ' ')
    (letters : ∀ c, Header.isNameChar c = true → holds c) :
    ∀ c ∈ lead ++ source.classLine, holds c := by
  intro c member
  unfold classLine at member
  simp only [List.mem_append,List.mem_cons,List.not_mem_nil,or_false] at member
  rcases member with front | inside | rfl | name | rfl
  · exact modifier c front
  · exact keyword c inside
  · exact space
  · exact letters c (isNameChar_of_isWord (source.named.2 c name))
  · exact space

theorem inert_packageLine : ∀ c ∈ source.packageLine ++ [';'], Lexical.isInert c = true := by
  have inert : ∀ c ∈ source.packageLine, Lexical.isInert c = true :=
    source.forall_packageLine (by decide) rfl fun _ => isInert_of_isNameChar
  intro c member
  rcases List.mem_append.mp member with line | semicolon
  · exact inert c line
  · rw [List.mem_singleton.mp semicolon]
    rfl

theorem inert_classLine : ∀ c ∈ lead ++ (source.classLine ++ ['\x7b']), Lexical.isInert c = true := by
  have inert : ∀ c ∈ lead ++ source.classLine, Lexical.isInert c = true :=
    source.forall_classLine (by decide) (by decide) rfl fun _ => isInert_of_isNameChar
  intro c member
  rw [← List.append_assoc] at member
  rcases List.mem_append.mp member with line | brace
  · exact inert c line
  · rw [List.mem_singleton.mp brace]
    rfl

theorem maskComments_text : maskComments source.text = source.text := by
  have package := Lexical.maskComments_inert source.inert_packageLine
  have class_ := Lexical.maskComments_inert source.inert_classLine
  have close : maskComments close = close := rfl
  simp only [List.append_assoc,List.singleton_append] at package class_
  rw [text_eq,package,AnnotationUse.maskComments_marked gap_gap,class_,
    Member.maskComments_members,close]

theorem maskLiterals_text : maskLiterals source.text = source.outline := by
  have package := Lexical.maskLiterals_inert source.inert_packageLine
  have class_ := Lexical.maskLiterals_inert source.inert_classLine
  have close : maskLiterals close = close := rfl
  simp only [List.append_assoc,List.singleton_append] at package class_
  rw [text_eq,package,AnnotationUse.maskLiterals_marked gap_gap,class_,
    Member.maskLiterals_members,close,outline]

theorem head_packageLine : ∀ c ∈ source.packageLine, Method.isHeadChar c = true :=
  source.forall_packageLine (by decide) rfl fun _ => Method.isHeadChar_of_isNameChar

theorem head_classLine : ∀ c ∈ lead ++ source.classLine, Method.isHeadChar c = true :=
  source.forall_classLine (by decide) (by decide) rfl fun _ => Method.isHeadChar_of_isNameChar

/-- The methods that are read are the members, with their annotations. -/
theorem methods_text :
    (Method.readAll source.text).map Method.called = source.members.map Member.called := by
  have calm : ∀ mark ∈ [source.mark], ∀ c ∈ mark.name, c ≠ 'p' ∧ c ≠ 's' := by
    intro mark member
    rw [List.mem_singleton.mp member]
    exact (by decide : ∀ c ∈ "Path".toList, c ≠ 'p' ∧ c ≠ 's')
  have misses (rest : List Char) : Method.pattern.Misses ((source.packageLine ++ [';']) ++
      (outlined gap [source.mark] ++ ((lead ++ source.classLine) ++ ['\x7b']))) rest :=
    Pattern.misses_append.mpr ⟨Method.misses_stop source.head_packageLine (by decide) (by decide),
      Pattern.misses_append.mpr ⟨Method.misses_outlined (by decide) calm _,
        Method.misses_stop source.head_classLine (by decide) (by decide)⟩⟩
  have closing : Method.pattern.Misses close [] :=
    @Method.misses_stop ['\n'] [] '\x7d' (by decide) (by decide) (by decide)
  have written : source.text = (source.packageLine ++ ';' :: (marked gap [source.mark] ++
      (lead ++ source.classLine))) ++ '\x7b' :: (source.members.flatMap Member.text ++ close) := by
    simp [text_eq]
  have shaped : source.outline = (source.packageLine ++ ';' :: (outlined gap [source.mark] ++
      (lead ++ source.classLine))) ++ '\x7b' :: (source.members.flatMap Member.outline ++ close) := by
    simp [outline]
  have before := Pattern.findFrom_misses
    (misses (source.members.flatMap Member.outline ++ close)) none 0
  have place : ((source.packageLine ++ [';']) ++ (outlined gap [source.mark] ++
      ((lead ++ source.classLine) ++ ['\x7b']))).length = (source.packageLine ++
        ';' :: (outlined gap [source.mark] ++ (lead ++ source.classLine))).length + 1 := by
    simp
    omega
  have body : (source.packageLine ++ [';']) ++ (outlined gap [source.mark] ++
      ((lead ++ source.classLine) ++ ['\x7b'])) ++ (source.members.flatMap Member.outline ++ close) =
        source.outline := by
    simp [outline]
  rw [body,Nat.zero_add,place] at before
  have all : Method.pattern.findAll source.outline = _ := before
  unfold Method.readAll
  simp only
  rw [maskComments_text,maskLiterals_text,all,written,shaped]
  exact Member.methods_members _ source.members closing (by simp [AnnotationUse.length_outlined])
    rfl _

theorem solid_package : ∀ c ∈ source.package ++ [';'], Text.isBlank c = false := by
  intro c member
  rcases List.mem_append.mp member with name | semicolon
  · exact isBlank_of_isNameChar (source.packaged.2 c name)
  · rw [List.mem_singleton.mp semicolon]
    rfl

theorem mark_text : source.mark.text =
    ("@Path(\"".toList ++ source.path.val ++ ['"']) ++ [')'] := by
  simp [Mark.text,Mark.brackets,mark,Mark.ofPath]

theorem solid_mark : ∀ c ∈ source.mark.text, Text.isBlank c = false := by
  intro c member
  rw [mark_text] at member
  simp only [List.mem_append,List.mem_cons,List.not_mem_nil,or_false] at member
  rcases member with ((front | path) | rfl) | rfl
  · exact (by decide : ∀ c ∈ "@Path(\"".toList, Text.isBlank c = false) c front
  · exact (source.path.property c path).1
  · rfl
  · rfl

/-- What stands before the keyword that declares the class. -/
def front : List Char := source.packageLine ++ ';' :: (marked gap [source.mark] ++ lead)

theorem misses_front (name : Pattern) (rest : List Char) :
    (Endpoint.typePattern name).Misses source.front rest := by
  have parts : source.front = ("package".toList ++ [' ']) ++ (((source.package ++ [';']) ++ ['\n']) ++
      (([] ++ ['\n']) ++ ((source.mark.text ++ ['\n']) ++ ("public".toList ++ [' '])))) := by
    unfold front packageLine marked gap lead
    simp
  rw [parts]
  refine Pattern.misses_append.mpr ⟨?_,Pattern.misses_append.mpr ⟨?_,Pattern.misses_append.mpr
    ⟨?_,Pattern.misses_append.mpr ⟨?_,?_⟩⟩⟩⟩
  · exact Endpoint.misses_solid (by decide) rfl (by decide)
  · exact Endpoint.misses_solid source.solid_package rfl
      (Endpoint.not_suffix_concat (by decide))
  · exact Endpoint.misses_solid (by decide) rfl (by decide)
  · refine Endpoint.misses_solid source.solid_mark rfl ?_
    rw [mark_text]
    exact Endpoint.not_suffix_concat (by decide)
  · exact Endpoint.misses_solid (by decide) rfl (by decide)

theorem search_text : ∃ found,
    (Endpoint.typePattern (Pattern.literal source.name)).search source.text = some found ∧
      found.start = source.front.length := by
  have last : source.front.getLast? = some ' ' := by
    have shape : source.front = (source.packageLine ++ ';' :: (marked gap [source.mark] ++
        "\npublic".toList)) ++ [' '] := by
      unfold front lead
      simp
    rw [shape,List.getLast?_concat]
  have shape : source.text = source.front ++ ("class".toList ++ (' ' :: (source.name ++
      ' ' :: ('\x7b' :: (source.members.flatMap Member.text ++ close))))) := by
    rw [text_eq]
    unfold front classLine
    simp
  obtain ⟨found,matched,start⟩ := @Endpoint.matchAt_class source.name
    ('\x7b' :: (source.members.flatMap Member.text ++ close)) ' ' (some ' ') source.front.length
    source.named.1 source.named.2 rfl rfl
  refine ⟨found,?_,start⟩
  rw [shape,Pattern.search,Pattern.searchFrom_misses (source.misses_front _ _),last,Nat.zero_add]
  exact Pattern.searchFrom_found matched

/-- The preamble of the class is what stands between the package and its keyword. -/
theorem preamble_text : Endpoint.typePreamble source.text source.name =
    marked gap [source.mark] ++ lead := by
  obtain ⟨found,searched,place⟩ := source.search_text
  have level : Lexical.Level (outlined gap [source.mark] ++ lead) :=
    (Lexical.level_outlined (Lexical.level_plain (by decide)) _).append
      (Lexical.level_plain (by decide))
  have stop : source.front.length = source.packageLine.length + 1 +
      (outlined gap [source.mark] ++ lead).length := by
    simp [front,AnnotationUse.length_outlined]
    omega
  have start := @Lexical.declarationStart_level source.packageLine _
    (source.classLine ++ '\x7b' :: (source.members.flatMap Member.outline ++ close)) ';' rfl level
  have between := Text.slice_append (source.packageLine ++ [';']) (marked gap [source.mark] ++ lead)
    (source.classLine ++ '\x7b' :: (source.members.flatMap Member.text ++ close))
  simp only [List.length_append,List.length_singleton,List.append_assoc,List.singleton_append,
    ← AnnotationUse.length_outlined] at start between stop
  unfold Endpoint.typePreamble
  simp only [maskComments_text,searched,Option.some_or,place,maskLiterals_text]
  rw [stop,outline,start,text_eq,between]

theorem onClass_text : AnnotationUse.readAll (Endpoint.typePreamble source.text source.name) =
    [source.mark.use] := by
  rw [preamble_text,AnnotationUse.readAll_marked gap_gap gap_lead]
  rfl

theorem hasRestMarker_text : Header.hasRestMarker source.text = true := by
  have occurs := Text.occursIn_append "@Path".toList
    ("(\"".toList ++ source.path.val ++ ['"'] ++ [')'] ++ (lead ++ (source.classLine ++
      '\x7b' :: (source.members.flatMap Member.text ++ close)))) (source.packageLine ++ ';' :: gap)
  have shape : source.text = source.packageLine ++ ';' :: gap ++ ("@Path".toList ++
      ("(\"".toList ++ source.path.val ++ ['"'] ++ [')'] ++ (lead ++ (source.classLine ++
        '\x7b' :: (source.members.flatMap Member.text ++ close))))) := by
    rw [text_eq]
    simp [marked,mark_text]
  rw [shape,Header.hasRestMarker,List.any_eq_true]
  exact ⟨"@Path",by decide,occurs⟩

theorem packageOf_text : Header.packageOf source.text = String.ofList source.package := by
  rw [text_eq]
  unfold packageLine
  rw [List.append_assoc,List.cons_append]
  exact Header.packageOf_text source.packaged.1 source.packaged.2

theorem unitName_file : unitName source.file = String.ofList source.name := by
  have apart (c : Char) (other : Text.isWord c = false) : c ∉ source.name := by
    intro member
    rw [source.named.2 c member] at other
    cases other
  have whole : Text.afterLast '/' (source.name ++ ".java".toList) =
      source.name ++ ".java".toList := by
    apply Text.afterLast_of_not_mem
    rw [List.mem_append,not_or]
    exact ⟨apart '/' rfl,by decide⟩
  have front : Text.beforeLast '.' (source.name ++ ".java".toList) = source.name :=
    @Text.beforeLast_append '.' "java".toList (by decide) source.name
  have undotted : ¬ source.name.all (· == '.') = true := by
    rw [List.all_eq_true]
    intro dots
    obtain ⟨c,name,shape⟩ := List.exists_cons_of_ne_nil source.named.1
    have member : c ∈ source.name := by rw [shape]; exact List.mem_cons_self
    exact apart '.' rfl (beq_iff_eq.mp (dots c member) ▸ member)
  unfold unitName stem file
  rw [String.toList_ofList,whole,front,if_neg undotted]

end RestSource

/-- An operation depends on the name of its method and on its annotations. -/
theorem Endpoint.filterMap_called {members : List Member} {methods : List Method}
    (same : methods.map Method.called = members.map Member.called) (unit : CompilationUnit)
    (onClass : List AnnotationUse) : methods.filterMap (ofMethod unit onClass) =
      members.filterMap fun member => ofMethod unit onClass
        {name := member.called.1, signature := "", annotations := member.called.2} := by
  have through := congrArg (List.filterMap fun entry : String × List AnnotationUse =>
    ofMethod unit onClass {name := entry.1, signature := "", annotations := entry.2}) same
  rw [List.filterMap_map,List.filterMap_map] at through
  exact through

namespace RestMethod

theorem firstVerb_marks (method : RestMethod) :
    Endpoint.firstVerb (method.marks.map Mark.use) = method.verb.map Subtype.val := by
  have other : "Path" ∉ Endpoint.verbs := by decide
  unfold Endpoint.firstVerb marks
  cases method.verb with
  | none => cases method.path <;> simp [simpleName_ofPath,other]
  | some verb => simp [simpleName_ofVerb,verb.property]

theorem anyValue_marks (method : RestMethod) {name : String} (other : name ∉ Endpoint.verbs) :
    Endpoint.anyValue (method.marks.map Mark.use) name =
      if name = "Path" then method.path.map fun path => String.ofList path.val else none := by
  have apart (verb : {verb : String // verb ∈ Endpoint.verbs}) : verb.val ≠ name := by
    rintro rfl
    exact other verb.property
  unfold Endpoint.anyValue marks
  by_cases same : name = "Path"
  · subst same
    cases method.verb <;> cases method.path <;>
      simp [simpleName_ofVerb,simpleName_ofPath,value_ofPath,apart]
  · cases method.verb <;> cases method.path <;>
      simp [simpleName_ofVerb,simpleName_ofPath,apart,same,Ne.symm same]

theorem joinPaths_path (method : RestMethod) (classPath : List Char) :
    Endpoint.joinPaths classPath
      ((method.path.map fun path => String.ofList path.val).getD "").toList =
        method.pathIn classPath := by
  unfold Endpoint.joinPaths pathIn
  rw [collapseSlashes_eq]
  rcases method.path with _ | ⟨path,plain⟩
  · rfl
  · cases path with
    | nil => simp
    | cons c path => simp

/-- The operation of a member of a resource, by the annotations that are written there. -/
theorem ofMethod_member (source : RestSource) (method : RestMethod) {unit : CompilationUnit}
    (name : unit.name = String.ofList source.name)
    (package : unit.package = String.ofList source.package) :
    Endpoint.ofMethod unit [source.mark.use]
      {name := method.member.called.1, signature := "", annotations := method.member.called.2} =
        source.endpoint? method := by
  have path : Endpoint.firstValue [source.mark.use] "Path" = some (String.ofList source.path.val) := by
    simp [Endpoint.firstValue,RestSource.mark,simpleName_ofPath,value_ofPath]
  have consumes : Endpoint.firstValue [source.mark.use] "Consumes" = none := by
    simp [Endpoint.firstValue,RestSource.mark,simpleName_ofPath]
  have produces : Endpoint.firstValue [source.mark.use] "Produces" = none := by
    simp [Endpoint.firstValue,RestSource.mark,simpleName_ofPath]
  have marks : method.member.called.2 = method.marks.map Mark.use := rfl
  unfold Endpoint.ofMethod RestSource.endpoint?
  simp only [marks]
  rw [firstVerb_marks,anyValue_marks _ (by decide),anyValue_marks _ (by decide),
    anyValue_marks _ (by decide),path,consumes,produces,if_pos rfl,Option.getD_some,
    String.toList_ofList,joinPaths_path,name,package]
  cases method.verb with
  | none => rfl
  | some verb => simp [Endpoint.mediaType,member,Member.called]

end RestMethod

namespace RestSource

theorem readAll_text (source : RestSource) {unit : CompilationUnit}
    (name : unit.name = String.ofList source.name)
    (package : unit.package = String.ofList source.package)
    (methods : unit.methods = Method.readAll source.text) :
    Endpoint.readAll source.text unit = source.methods.filterMap source.endpoint? := by
  rw [Endpoint.readAll,maskComments_text,if_pos source.hasRestMarker_text,name,
    String.toList_ofList,source.onClass_text,methods,Endpoint.filterMap_called source.methods_text,
    members,List.filterMap_map]
  exact List.filterMap_congr fun method _ => method.ofMethod_member source name package

/-- The operations of a resource as it is written are those of its methods with a verb. -/
theorem operations_of_source (source : RestSource) :
    ∃ extraction, Extraction.read? source.text source.file "java" = some extraction ∧
      extraction.endpoints = source.methods.filterMap source.endpoint? := by
  refine ⟨Extraction.ofText source.text source.file,by rw [Extraction.read?,if_pos (by decide)],?_⟩
  rw [Extraction.endpoints_ofText]
  apply source.readAll_text
  · rw [Extraction.name_ofText,unitName_file]
  · rw [Extraction.package_ofText,maskComments_text,packageOf_text]
  · rw [Extraction.methods_ofText]

/-- A resource whose paths hold comment marks, a brace and parentheses. -/
def cart : RestSource where
  package := "shop.api".toList
  name := "Cart".toList
  path := ⟨"//cart/*\x7b(".toList,by decide⟩
  methods := [
    { verb := some ⟨"GET",by decide⟩
      path := some ⟨"/)//items".toList,by decide⟩
      declaration :=
        { tokens := ["public".toList,"Map<String,int[]>".toList]
          name := "items".toList
          typed := by decide
          few := by decide
          words := by decide
          declares := by decide
          named := by decide
          letters := by decide
          free := by decide } },
    { verb := none
      path := some ⟨"unused".toList,by decide⟩
      declaration :=
        { tokens := ["void".toList]
          name := "reset".toList
          typed := by decide
          few := by decide
          words := by decide
          declares := by decide
          named := by decide
          letters := by decide
          free := by decide } },
    { verb := some ⟨"POST",by decide⟩
      path := none
      declaration :=
        { tokens := ["private".toList,"new".toList,"void".toList]
          name := "add".toList
          typed := by decide
          few := by decide
          words := by decide
          declares := by decide
          named := by decide
          letters := by decide
          free := by decide } }]
  packaged := by decide
  named := by decide

def cartLines : List String :=
  ["package shop.api;","","@Path(\"//cart/*\x7b(\")","public class Cart \x7b",
    "    @GET","    @Path(\"/)//items\")","    public Map<String,int[]> items() \x7b","    \x7d",
    "    @Path(\"unused\")","    void reset() \x7b","    \x7d",
    "    @POST","    private new void add() \x7b","    \x7d",
    "\x7d"]

theorem operations_of_source_cart :
    ∃ extraction, Extraction.read? (['\n'].intercalate (cartLines.map String.toList)) "Cart.java"
        "java" = some extraction ∧
      extraction.endpoints = [
        ⟨"GET","/cart/*\x7b(/)/items","items","Cart","shop.api",none,none⟩,
        ⟨"POST","/cart/*\x7b(","add","Cart","shop.api",none,none⟩] := by
  obtain ⟨extraction,read,operations⟩ := operations_of_source cart
  have text : cart.text = ['\n'].intercalate (cartLines.map String.toList) := by decide +kernel
  have file : cart.file = "Cart.java" := by decide
  rw [text,file] at read
  refine ⟨extraction,read,operations.trans ?_⟩
  decide

end RestSource

end JavaAtlas
