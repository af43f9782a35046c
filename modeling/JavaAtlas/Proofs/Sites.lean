import JavaAtlas.Proofs.Declarations
import JavaAtlas.Proofs.Spacing
import JavaAtlas.Proofs.Visible
import Mathlib.Data.List.Forall2

/-! Where methods stand. A match is made of parts that are seen where comments and literals are
masked, and its delimiters keep literals out of what lies between them; so a name, the parentheses
behind it and the brace that opens the body are code. The signature is the line from the name on,
with the blanks before it, and whatever the literals in it hold, it is one line. -/
namespace JavaAtlas.Method
open Pattern Lexical
open Relation (ReflTransGen)

section Parts

/-- Each parenthesis is answered. -/
inductive Balanced : List Char → Prop where
  | nil : Balanced []
  | plain {c : Char} {rest : List Char} : c ≠ '(' → c ≠ ')' → Balanced rest → Balanced (c :: rest)
  | nested {inside rest : List Char} : Balanced inside → Balanced rest →
      Balanced ('(' :: (inside ++ ')' :: rest))

theorem Balanced.flat {front rest : List Char} (flat : ∀ c ∈ front, c ≠ '(' ∧ c ≠ ')')
    (balanced : Balanced rest) : Balanced (front ++ rest) := by
  induction front with
  | nil => exact balanced
  | cons c front ih =>
    rw [List.forall_mem_cons] at flat
    exact .plain flat.1.1 flat.1.2 (ih flat.2)

theorem over_noParenthesis : noParenthesis.Over fun c => c ≠ '(' ∧ c ≠ ')' := by
  intro c accepted
  rwa [Bool.and_eq_true,bne_iff_ne,bne_iff_ne] at accepted

theorem balanced_of_reaches {cursor next : Cursor} (way : parameters.Reaches cursor next) :
    ∃ text, Balanced text ∧ cursor.Spells text next := by
  induction (way : ReflTransGen _ cursor next) using ReflTransGen.head_induction_on with
  | refl => exact ⟨[],.nil,next.spells_nil⟩
  | head step _ ih =>
    obtain ⟨text,balanced,further⟩ := ih
    rcases step with plain | ⟨inner,opened,outer,inside,closed⟩
    · obtain ⟨front,flat,spells⟩ := over_noParenthesis.spells rfl plain
      exact ⟨front ++ text,balanced.flat flat,spells.append further⟩
    · obtain ⟨c,opening,first⟩ := spells_of_one opened
      have covered : (longest noParenthesis).Over fun c => c ≠ '(' ∧ c ≠ ')' := over_noParenthesis
      obtain ⟨front,flat,second⟩ := covered.spells rfl inside
      obtain ⟨d,closing,third⟩ := spells_of_one closed
      cases beq_iff_eq.mp opening
      cases beq_iff_eq.mp closing
      refine ⟨['('] ++ (front ++ ([')'] ++ text)),?_,first.append (second.append (third.append further))⟩
      have inner := Balanced.flat flat .nil
      rw [List.append_nil] at inner
      exact .nested inner balanced

def leadParts : List Pattern := [opening,longest1 (char ' '),typeToken,upTo 9 typeToken]

def clauseParts : List Pattern :=
  [spaces,optional (seq (word "throws ")
    (longest1 (one fun c => Text.isWord c || c == '.' || c == ',' || Text.isBlank c)))]

theorem over_leadParts : (sequence leadParts).Over fun c => isHeadChar c = true :=
  ⟨over_headParts.1,over_headParts.2.1,over_headParts.2.2.1,over_headParts.2.2.2.1⟩

theorem over_clauseParts : (sequence clauseParts).Over fun c => isClauseChar c = true := by
  have space (c : Char) (same : (c == ' ') = true) : isClauseChar c = true := by
    rw [beq_iff_eq.mp same]
    rfl
  exact ⟨space,⟨over_literal (by decide),fun _ => id,fun _ => id⟩,trivial⟩

/-- The parts of a match. -/
structure Shape where
  lead : List Char
  name : List Char
  gap : List Char
  parameters : List Char
  clause : List Char
  heading : ∀ c ∈ lead, isHeadChar c = true
  named : name ≠ []
  letters : ∀ c ∈ name, Text.isWord c = true
  spaced : ∀ c ∈ gap, c = ' '
  balanced : Balanced parameters
  throwing : ∀ c ∈ clause, isClauseChar c = true

namespace Shape
variable (shape : Shape)

/-- From the name to the opening parenthesis. -/
def call : List Char := shape.name ++ (shape.gap ++ ['('])

/-- From the closing parenthesis to the brace. -/
def finish : List Char := ')' :: (shape.clause ++ ['\x7b'])

def text : List Char := shape.lead ++ (shape.call ++ (shape.parameters ++ shape.finish))

/-- All but the brace. -/
def declared : List Char :=
  shape.lead ++ (shape.call ++ (shape.parameters ++ ')' :: shape.clause))

theorem text_eq : shape.text = shape.declared ++ ['\x7b'] := by simp [text,declared,finish]

def found (position : Nat) : Match :=
  let start := position + shape.lead.length
  ⟨position,position + shape.text.length,shape.text,
    [(1,⟨start,start + shape.name.length,shape.name⟩)]⟩

end Shape

/-- A match is made of its parts. -/
theorem exists_shape {border : Option Char} {position : Nat} {rest : List Char} {found : Match}
    (matched : pattern.matchAt border position rest = some found) :
    ∃ shape : Shape, found = shape.found position ∧ ∃ more, rest = shape.text ++ more := by
  obtain ⟨stop,way,rfl⟩ := reaches_of_matchAt matched
  obtain ⟨_,opens,_,indent,_,first,led,others,_,⟨called,naming,rfl⟩,_,gapped,_,opened,_,inside,_,
    closed,_,behind,_,clause,braced⟩ := way
  obtain ⟨lead,heading,one⟩ := over_leadParts.spells rfl ⟨_,opens,_,indent,_,first,others⟩
  obtain ⟨name,named,letters,two⟩ := spells_of_longest1 naming
  have covered : spaces.Over fun c => c = ' ' := fun _ => beq_iff_eq.mp
  obtain ⟨gap,spaced,three⟩ := covered.spells rfl gapped
  obtain ⟨parameters,balanced,four⟩ := balanced_of_reaches inside
  obtain ⟨clause,throwing,five⟩ := over_clauseParts.spells rfl ⟨_,behind,clause⟩
  obtain ⟨_,opening,six⟩ := spells_of_one opened
  obtain ⟨_,closing,seven⟩ := spells_of_one closed
  obtain ⟨_,brace,eight⟩ := spells_of_one braced
  cases beq_iff_eq.mp opening
  cases beq_iff_eq.mp closing
  cases beq_iff_eq.mp brace
  let shape : Shape := ⟨lead,name,gap,parameters,clause,heading,named,letters,spaced,balanced,throwing⟩
  obtain ⟨starts,reached,captures⟩ := Cursor.captured_of_spells one two
    (three.append (six.append (four.append (seven.append (five.append eight)))))
  have text : lead ++ (name ++ (gap ++ (['('] ++ (parameters ++ ([')'] ++ (clause ++ ['\x7b'])))))) =
      shape.text := by
    simp [shape,Shape.text,Shape.call,Shape.finish]
  have whole : rest = shape.text ++ stop.rest := by
    rw [starts,← text]
    simp
  rw [text] at reached
  refine ⟨shape,?_,stop.rest,whole⟩
  rw [reached,captures,Nat.add_sub_cancel_left,whole,List.take_left]
  rfl

theorem exists_standing {text : List Char} {found : Match} (member : found ∈ pattern.findAll text) :
    ∃ (shape : Shape) (front more : List Char), found = shape.found front.length ∧
      text = front ++ (shape.text ++ more) := by
  obtain ⟨_,matched⟩ := matchAt_of_mem_findAll member
  obtain ⟨shape,same,more,starts⟩ := exists_shape matched
  have place : (text.take found.start).length = found.start := by
    have length := congrArg List.length starts
    simp only [List.length_drop,Shape.text_eq,List.length_append,List.length_singleton] at length
    rw [List.length_take]
    omega
  refine ⟨shape,text.take found.start,more,?_,?_⟩
  · rw [place]
    exact same
  · rw [← starts,List.take_append_drop]

end Parts

section Signatures

/-- A text in one line that names a call and does not end with a brace. -/
structure Fair (name text : List Char) : Prop where
  nonempty : text ≠ []
  oneLine : ∀ c ∈ text, Text.isBlank c = true → c = ' '
  starts : ∀ c, text.head? = some c → Text.isBlank c = false
  ends : ∀ c, text.getLast? = some c → Text.isBlank c = false ∧ c ≠ '\x7b'
  single : ¬[' ',' '] <:+: text
  calls : ∃ before gap after, text = before ++ (name ++ (gap ++ '(' :: after)) ∧
    (gap = [] ∨ gap = [' '])

/-- What is dropped at the end of a signature. -/
def isTrailing (c : Char) : Bool := c == '\x7b' || c == ' '

section Line
variable (shape : Shape) (before inside : List Char)

def lineOf : List Char := before ++ (shape.call ++ (inside ++ shape.finish))

/-- The parenthesis behind the parameters stays, and what is dropped stands behind it. -/
theorem signature_eq : Text.dropEndWhile isTrailing (Text.singleSpaced (lineOf shape before inside)) =
    (Text.collapse before).dropWhile Text.isBlank ++ (shape.name ++ (Text.collapse shape.gap ++ '(' ::
      (Text.collapse inside ++ ')' ::
        Text.dropEndWhile isTrailing (Text.collapse (shape.clause ++ ['\x7b']))))) := by
  have parts : lineOf shape before inside =
      before ++ (shape.name ++ ((shape.gap ++ '(' :: (inside ++ ')' :: shape.clause)) ++ ['\x7b'])) := by
    simp [lineOf,Shape.call,Shape.finish]
  have behind : Text.collapse ((shape.gap ++ '(' :: (inside ++ ')' :: shape.clause)) ++ ['\x7b']) =
      Text.collapse shape.gap ++ '(' ::
        (Text.collapse inside ++ ')' :: Text.collapse (shape.clause ++ ['\x7b'])) := by
    rw [List.append_assoc,List.cons_append,Text.collapse_append (by rfl),List.append_assoc,
      List.cons_append,Text.collapse_append (by rfl)]
  have drop := @Text.dropEndWhile_append_cons isTrailing ')' rfl
    ((Text.collapse before).dropWhile Text.isBlank ++ (shape.name ++ (Text.collapse shape.gap ++
      '(' :: Text.collapse inside))) (Text.collapse (shape.clause ++ ['\x7b']))
  rw [parts,Text.singleSpaced_append shape.named
    (fun c member => Text.isBlank_of_isWord (shape.letters c member)) (by rfl),behind]
  simpa using drop

theorem fair_signature :
    Fair shape.name (Text.dropEndWhile isTrailing (Text.singleSpaced (lineOf shape before inside))) := by
  have ends : lineOf shape before inside =
      (before ++ (shape.call ++ (inside ++ ')' :: shape.clause))) ++ ['\x7b'] := by
    simp [lineOf,Shape.finish]
  have begins : Text.dropEndWhile isTrailing (Text.singleSpaced (lineOf shape before inside)) <+:
      (Text.collapse (lineOf shape before inside)).dropWhile Text.isBlank := by
    rw [ends,← Text.singleSpaced_eq (by rfl)]
    exact List.rdropWhile_prefix isTrailing _
  obtain ⟨oneLine,starts,single⟩ := Text.oneLine_of_prefix begins
  have gap : ∀ c ∈ shape.gap, Text.isBlank c = true := by
    intro c member
    rw [shape.spaced c member]
    rfl
  refine ⟨?_,oneLine,starts,?_,single,_,_,_,signature_eq shape before inside,Text.collapse_gap gap⟩
  · rw [signature_eq]
    simp
  · intro c last
    have stays : isTrailing c = false := by
      rw [Text.dropEndWhile,List.getLast?_reverse] at last
      exact Text.head?_dropWhile last
    rw [isTrailing,Bool.or_eq_false_iff,beq_eq_false_iff_ne,beq_eq_false_iff_ne] at stays
    refine ⟨?_,stays.1⟩
    rw [Bool.eq_false_iff]
    intro blank
    exact stays.2 (oneLine c (List.mem_of_getLast? last) blank)

end Line

end Signatures

section Standing
variable {content front more : List Char}

/-- The text stands at the place, and there as code. -/
def CodeAt (content : List Char) (place : Nat) (text : List Char) : Prop :=
  Text.slice content place (place + text.length) = text ∧
    ∀ i, place ≤ i → i < place + text.length → InCode content i

/-- What is seen and does not belong to a literal is code. -/
theorem codeAt_of_slice {start stop place : Nat} {before part after : List Char}
    (shown : Text.slice (maskLiterals (maskComments content)) start stop = before ++ (part ++ after))
    (here : start + before.length = place) (solid : ∀ c ∈ part, Text.isBlank c = false)
    (outside : ∀ i, start ≤ i → i < stop → ¬InLiteral content i) :
    CodeAt content place part := by
  rw [← here]
  have seen (k : Nat) (inside : k < part.length) : start + before.length + k < stop ∧
      (maskLiterals (maskComments content))[start + before.length + k]? = some part[k] := by
    have here := congrArg (fun text => text[before.length + k]?) shown
    rw [Text.getElem?_slice,List.getElem?_append_right (Nat.le_add_right _ k),Nat.add_sub_cancel_left,
      List.getElem?_append_left inside,List.getElem?_eq_getElem inside,← Nat.add_assoc] at here
    split at here
    · next low => exact ⟨low,here⟩
    · cases here
  have code (k : Nat) (inside : k < part.length) : InCode content (start + before.length + k) := by
    obtain ⟨low,here⟩ := seen k inside
    exact ⟨outside _ (by omega) low,
      not_inComment_of_shown here (solid _ (List.getElem_mem inside))⟩
  constructor
  · apply List.ext_getElem?
    intro k
    rw [Text.getElem?_slice]
    split
    · next high =>
      have inside : k < part.length := by omega
      have here := code k inside
      rw [← here.kept,← masks_eq_of_not_inLiteral here.1,(seen k inside).2,
        List.getElem?_eq_getElem inside]
    · next high => rw [List.getElem?_eq_none (by omega)]
  · intro i low high
    obtain ⟨k,rfl⟩ := Nat.exists_eq_add_of_le low
    exact code k (by omega)

/-- Where the parts of a method stand: its name, its parentheses, and the brace of its body. -/
structure Site where
  name : Nat
  opening : Nat
  closing : Nat
  body : Nat

/-- The method stands there. What lies between its parts is seen where comments and literals are
masked. -/
structure Stands (content : List Char) (method : Method) (site : Site) : Prop where
  named : method.name.toList ≠ [] ∧ ∀ c ∈ method.name.toList, Text.isWord c = true
  name : CodeAt content site.name method.name.toList
  opening : CodeAt content site.opening ['(']
  closing : CodeAt content site.closing [')']
  body : CodeAt content site.body ['\x7b']
  gap : ∀ c ∈ Text.slice (maskLiterals (maskComments content))
    (site.name + method.name.toList.length) site.opening, c = ' '
  parameters : Balanced
    (Text.slice (maskLiterals (maskComments content)) (site.opening + 1) site.closing)
  clause : ∀ c ∈ Text.slice (maskLiterals (maskComments content)) (site.closing + 1) site.body,
    isClauseChar c = true
  ordered : site.name + method.name.toList.length ≤ site.opening ∧ site.opening < site.closing ∧
    site.closing < site.body

namespace Shape
variable (shape : Shape)

def site (position : Nat) : Site :=
  let name := position + shape.lead.length
  let opening := name + shape.name.length + shape.gap.length
  let closing := opening + 1 + shape.parameters.length
  ⟨name,opening,closing,closing + 1 + shape.clause.length⟩

theorem bare_call : ∀ c ∈ shape.call, isQuote c = false := by
  intro c member
  simp only [call,List.mem_append,List.mem_singleton] at member
  rcases member with letter | space | rfl
  · exact isQuote_of_isInert (isInert_of_isNameChar (isNameChar_of_isWord (shape.letters c letter)))
  · rw [shape.spaced c space]
    rfl
  · rfl

theorem bare_finish : ∀ c ∈ shape.finish, isQuote c = false := by
  intro c member
  simp only [finish,List.mem_cons,List.mem_append,List.not_mem_nil,or_false] at member
  rcases member with rfl | inside | rfl
  · rfl
  · exact isQuote_of_isInert (isInert_of_isClauseChar (shape.throwing c inside))
  · rfl

section Slices
variable {text front more : List Char} (whole : text = front ++ (shape.text ++ more))
include whole

theorem slice_call : Text.slice text (shape.site front.length).name
    ((shape.site front.length).opening + 1) = shape.call := by
  apply @Text.slice_part _ _ _ (front ++ shape.lead) _ (shape.parameters ++ shape.finish ++ more)
  · simp [whole,Shape.text]
  · simp [site]
  · simp only [site,call,List.length_append,List.length_singleton]
    omega

theorem slice_parameters : Text.slice text ((shape.site front.length).opening + 1)
    (shape.site front.length).closing = shape.parameters := by
  apply @Text.slice_part _ _ _ (front ++ shape.lead ++ shape.call) _ (shape.finish ++ more)
  · simp [whole,Shape.text]
  · simp only [site,call,List.length_append,List.length_singleton]
    omega
  · simp [site]

theorem slice_finish : Text.slice text (shape.site front.length).closing
    ((shape.site front.length).body + 1) = shape.finish := by
  apply @Text.slice_part _ _ _ (front ++ shape.lead ++ shape.call ++ shape.parameters) _ more
  · simp [whole,Shape.text]
  · simp only [site,call,List.length_append,List.length_singleton]
    omega
  · simp only [site,finish,List.length_cons,List.length_append,List.length_nil]
    omega

end Slices

section Seen
variable (whole : maskLiterals (maskComments content) = front ++ (shape.text ++ more))
include whole

theorem length_content : (shape.site front.length).body + 1 + more.length = content.length := by
  have length := congrArg List.length whole
  rw [← (shows_masks content).length_eq] at length
  rw [length]
  simp only [site,text,call,finish,List.length_append,List.length_cons,List.length_nil]
  omega

theorem outside_call {i : Nat} (after : (shape.site front.length).name ≤ i)
    (before : i < (shape.site front.length).opening + 1) : ¬InLiteral content i := by
  obtain ⟨c,name,named⟩ := List.exists_cons_of_ne_nil shape.named
  have parts : shape.call = c :: (name ++ (shape.gap ++ ['('])) := by rw [call,named]; rfl
  have length := length_content shape whole
  refine not_inLiteral_of_slice ((shape.slice_call whole).trans parts) ?_ ?_ ?_ after before
  · exact Text.isBlank_of_isWord (shape.letters c (by rw [named]; exact List.mem_cons_self))
  · rw [← parts]
    exact shape.bare_call
  · simp only [site] at length ⊢
    omega

theorem outside_finish {i : Nat} (after : (shape.site front.length).closing ≤ i)
    (before : i < (shape.site front.length).body + 1) : ¬InLiteral content i := by
  have length := length_content shape whole
  refine not_inLiteral_of_slice (shape.slice_finish whole) (by rfl) shape.bare_finish ?_ after before
  simp only [site] at length ⊢
  omega

theorem stands {method : Method} (named : method.name = String.ofList shape.name) :
    Stands content method (shape.site front.length) := by
  have name : method.name.toList = shape.name := by rw [named,String.toList_ofList]
  have outer (i : Nat) := @outside_call content front more shape whole i
  have inner (i : Nat) := @outside_finish content front more shape whole i
  constructor
  · rw [name]
    exact ⟨shape.named,shape.letters⟩
  · rw [name]
    exact @codeAt_of_slice content _ _ _ [] shape.name _ (shape.slice_call whole) rfl
      (fun c member => Text.isBlank_of_isWord (shape.letters c member)) outer
  · refine @codeAt_of_slice content _ _ _ (shape.name ++ shape.gap) ['('] []
      ((shape.slice_call whole).trans (by simp [Shape.call])) ?_ (by decide) outer
    simp [site,Nat.add_assoc]
  · exact @codeAt_of_slice content _ _ _ [] [')'] _ (shape.slice_finish whole) rfl (by decide) inner
  · refine @codeAt_of_slice content _ _ _ (')' :: shape.clause) ['\x7b'] []
      ((shape.slice_finish whole).trans (by simp [Shape.finish])) ?_ (by decide) inner
    simp only [site,List.length_cons]
    omega
  · rw [name,@Text.slice_part _ _ _ (front ++ shape.lead ++ shape.name) shape.gap
      ('(' :: (shape.parameters ++ (shape.finish ++ more)))]
    · exact shape.spaced
    · simp [whole,text,Shape.call]
    · simp [site,Nat.add_assoc]
    · simp [site]
  · rw [shape.slice_parameters whole]
    exact shape.balanced
  · rw [@Text.slice_part _ _ _ (front ++ shape.lead ++ shape.call ++ shape.parameters ++ [')'])
      shape.clause ('\x7b' :: more)]
    · exact shape.throwing
    · simp [whole,text,Shape.finish]
    · simp only [site,Shape.call,List.length_append,List.length_singleton]
      omega
    · simp [site]
  · rw [name]
    simp only [site]
    omega

/-- Where nothing belongs to a literal, the text with its literals is the one without them. -/
theorem signatureOf_eq :
    signatureOf (maskComments content) (shape.site front.length).name
      ((shape.site front.length).body + 1) =
        String.ofList (Text.dropEndWhile isTrailing (Text.singleSpaced (lineOf shape
          (Text.afterLast '\n' ((maskComments content).take (shape.site front.length).name))
          (Text.slice (maskComments content) ((shape.site front.length).opening + 1)
            (shape.site front.length).closing)))) := by
  have seen {start stop : Nat} (outside : ∀ i, start ≤ i → i < stop → ¬InLiteral content i) :
      Text.slice (maskComments content) start stop =
        Text.slice (maskLiterals (maskComments content)) start stop :=
    Text.slice_congr fun i low high => (masks_eq_of_not_inLiteral (outside i low high)).symm
  rw [signatureOf,lineOf,← shape.slice_call whole,← shape.slice_finish whole,
    ← seen fun _ => outside_call shape whole,← seen fun _ => outside_finish shape whole,
    ← Text.slice_join,← Text.slice_join]
  · rfl
  all_goals
    simp only [site]
    omega

end Seen

end Shape

/-- What a match is made into has the name and the signature that stand in it. -/
theorem fields_of_made {blocks : List Match} {masked structural : List Char} {shape : Shape}
    {position : Nat} {method : Method}
    (made : ofMatch blocks masked structural (shape.found position) = some method) :
    method.name = String.ofList shape.name ∧ method.signature =
      signatureOf masked (shape.site position).name ((shape.site position).body + 1) := by
  obtain ⟨name,captured,kind⟩ := Option.bind_eq_some_iff.mp made
  cases captured
  have stop : position + shape.text.length = (shape.site position).body + 1 := by
    simp only [Shape.site,Shape.text,Shape.call,Shape.finish,List.length_append,List.length_cons,
      List.length_nil]
    omega
  dsimp only at kind
  split at kind
  · cases kind
  · cases kind
    exact ⟨rfl,congrArg (signatureOf masked _) stop⟩

theorem exists_site {blocks : List Match} {found : Match} {method : Method}
    (member : found ∈ pattern.findAll (maskLiterals (maskComments content)))
    (made : ofMatch blocks (maskComments content) (maskLiterals (maskComments content)) found =
      some method) :
    (∃ site, Stands content method site ∧ found.start ≤ site.name ∧ site.body < found.stop) ∧
      Fair method.name.toList method.signature.toList := by
  obtain ⟨shape,front,more,rfl,whole⟩ := exists_standing member
  obtain ⟨named,signed⟩ := fields_of_made made
  have stop : (shape.found front.length).stop = (shape.site front.length).body + 1 := by
    simp only [Shape.found,Shape.site,Shape.text,Shape.call,Shape.finish,List.length_append,
      List.length_cons,List.length_nil]
    omega
  refine ⟨⟨_,shape.stands whole named,Nat.le_add_right _ _,by omega⟩,?_⟩
  rw [named,signed,shape.signatureOf_eq whole,String.toList_ofList,String.toList_ofList]
  exact fair_signature shape _ _

/-- What is made of matches one behind the other stands one behind the other. -/
theorem exists_sites {make : Match → Option Method} {founds : List Match}
    (ordered : founds.Pairwise fun first second => first.stop ≤ second.start)
    (each : ∀ found ∈ founds, ∀ method, make found = some method →
      ∃ site, Stands content method site ∧ found.start ≤ site.name ∧ site.body < found.stop) :
    ∃ sites, List.Forall₂ (Stands content) (founds.filterMap make) sites ∧
      sites.Pairwise (fun first second => first.body < second.name) ∧
      ∀ site ∈ sites, ∃ found ∈ founds, found.start ≤ site.name := by
  induction founds with
  | nil => exact ⟨[],.nil,.nil,nofun⟩
  | cons found founds ih =>
    rw [List.pairwise_cons] at ordered
    rw [List.forall_mem_cons] at each
    obtain ⟨sites,stand,later,starts⟩ := ih ordered.2 each.2
    have kept : ∀ site ∈ sites, ∃ other ∈ found :: founds, other.start ≤ site.name := by
      intro site member
      obtain ⟨other,among,low⟩ := starts site member
      exact ⟨other,List.mem_cons_of_mem _ among,low⟩
    cases made : make found with
    | none =>
      rw [List.filterMap_cons_none made]
      exact ⟨sites,stand,later,kept⟩
    | some method =>
      obtain ⟨site,here,low,high⟩ := each.1 method made
      rw [List.filterMap_cons_some made]
      refine ⟨site :: sites,.cons here stand,List.pairwise_cons.mpr ⟨?_,later⟩,
        List.forall_mem_cons.mpr ⟨⟨found,List.mem_cons_self,low⟩,kept⟩⟩
      intro next member
      obtain ⟨other,among,start⟩ := starts next member
      have behind := ordered.1 other among
      omega

end Standing

/-- Each method stands in the text as code: its name, the parentheses around its parameters, and the
brace of its body, one method behind the other. Its signature is one line that names it in front of
a parenthesis. -/
theorem readAll_stands (content : List Char) :
    ∃ sites : List Site, List.Forall₂ (Stands content) (readAll content) sites ∧
      sites.Pairwise (fun first second => first.body < second.name) ∧
      ∀ method ∈ readAll content, Fair method.name.toList method.signature.toList := by
  obtain ⟨sites,stand,ordered,_⟩ := exists_sites
    (pairwise_findFrom pattern (maskLiterals (maskComments content)) none 0).2
    fun found member method made => (exists_site member made).1
  refine ⟨sites,stand,ordered,?_⟩
  intro method member
  obtain ⟨found,among,made⟩ := List.mem_filterMap.mp member
  exact (exists_site among made).2

/-- Neither the quoted declaration nor the one in a comment is a method, and the line of the third one
is put in order. -/
example : (readAll
    " int a() = \" int b() \x7b\"; // int c() \x7b\n  int\td /**/ ( String s) \x7b".toList).map
      Method.signature = ["int d ( String s)"] := by decide +kernel

end JavaAtlas.Method
