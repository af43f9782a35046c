import JavaAtlas.Proofs.Enumerations
import JavaAtlas.Proofs.Verbatim

/-! Constants behind annotations. The name of a constant is looked for behind marks whose arguments
end at the first closing parenthesis, in a literal or not, while annotations themselves are read with
their literals blank; both agree on arguments that hold no closing parenthesis. -/
namespace JavaAtlas.Enums
open Lexical Pattern
open Lexical.Division (through)
open Text (Blank OneWord)

section Shelter
variable {separator c : Char} {open_ : Bool} {front text rest stack part : List Char}
  {parts : List (List Char)}

/-- Whether an opening parenthesis comes behind the last closing one, from one character to the
next. -/
def shelter (open_ : Bool) (c : Char) : Bool := c == '(' || (open_ && c != ')')

/-- Separators and quotes stand behind an opening parenthesis that no closing one follows. -/
def Sheltered (separator : Char) : Bool → List Char → Prop
  | _, [] => True
  | open_, c :: rest => (c = separator ∨ isQuote c = true → open_ = true) ∧
      Sheltered separator (shelter open_ c) rest

theorem sheltered_cons : Sheltered separator open_ (c :: rest) ↔
    (c = separator ∨ isQuote c = true → open_ = true) ∧
      Sheltered separator (shelter open_ c) rest := Iff.rfl

theorem Sheltered.open (sheltered : Sheltered separator open_ text) :
    Sheltered separator true text := by
  induction text generalizing open_ with
  | nil => trivial
  | cons c rest ih =>
    rw [sheltered_cons] at sheltered ⊢
    refine ⟨fun _ => rfl,?_⟩
    by_cases closing : c = ')'
    · subst closing
      cases open_ <;> exact sheltered.2
    · have stays : shelter true c = true := by simp [shelter,closing]
      rw [stays]
      exact ih sheltered.2

theorem Sheltered.drop (sheltered : Sheltered separator open_ (front ++ rest)) :
    Sheltered separator true rest := by
  induction front generalizing open_ with
  | nil => exact sheltered.open
  | cons c front ih => exact ih sheltered.2

/-- Where neither separators nor quotes nor parentheses stand, nothing needs shelter. -/
theorem sheltered_calm (calm : ∀ c ∈ front, c ≠ separator ∧ c ∉ marks)
    (sheltered : Sheltered separator open_ rest) : Sheltered separator open_ (front ++ rest) := by
  induction front with
  | nil => exact sheltered
  | cons c front ih =>
    rw [List.forall_mem_cons] at calm
    obtain ⟨⟨other,apart⟩,others⟩ := calm
    rw [List.cons_append,sheltered_cons]
    refine ⟨?_,?_⟩
    · rintro (same | quoted)
      · exact absurd same other
      · rw [bare_of_not_mem apart] at quoted
        cases quoted
    · have opening : c ≠ '(' := by
        rintro rfl
        exact apart (by decide)
      have closing : c ≠ ')' := by
        rintro rfl
        exact apart (by decide)
      have stays : shelter open_ c = open_ := by
        rw [shelter,beq_false_of_ne opening,bne_iff_ne.mpr closing,Bool.false_or,Bool.and_true]
      rw [stays]
      exact ih others

theorem sheltered_inside (unclosed : ')' ∉ front) (sheltered : Sheltered separator true rest) :
    Sheltered separator true (front ++ rest) := by
  induction front with
  | nil => exact sheltered
  | cons c front ih =>
    rw [List.mem_cons,not_or] at unclosed
    have stays : shelter true c = true := by simp [shelter,Ne.symm unclosed.1]
    rw [List.cons_append,sheltered_cons,stays]
    exact ⟨fun _ => rfl,ih unclosed.2⟩

/-- A sheltered text is not divided: an opening parenthesis stays on the stack as long as no closing
one comes, and a literal begins nowhere else. -/
theorem through_sheltered (sheltered : Sheltered separator open_ text)
    (kept : open_ = true → '(' ∈ stack) : ∃ left, through separator ⟨stack,part,parts⟩ text =
      ⟨left,text.reverse ++ part,parts⟩ := by
  have divided := quotes_literalTokens text
  generalize literalTokens text = found at divided
  induction divided generalizing open_ stack part with
  | done => exact ⟨stack,rfl⟩
  | @literal inside rest _ whole _ ih =>
    obtain ⟨quote,_,rfl,quoted⟩ := whole.opens
    have opened : '(' ∈ stack := kept (sheltered.1 (.inr quoted))
    obtain ⟨left,same⟩ := @ih true stack _ sheltered.drop fun _ => opened
    exact ⟨left,by rw [Division.through_literal whole,same,List.reverse_append,List.append_assoc]⟩
  | @code c rest _ bare _ ih =>
    have goes {stack' : List Char}
        (step : Division.step separator ⟨stack,part,parts⟩ (.code c) = ⟨stack',c :: part,parts⟩)
        (kept' : shelter open_ c = true → '(' ∈ stack') :
        ∃ left, through separator ⟨stack,part,parts⟩ (c :: rest) =
          ⟨left,(c :: rest).reverse ++ part,parts⟩ := by
      obtain ⟨left,same⟩ := @ih _ stack' (c :: part) sheltered.2 kept'
      exact ⟨left,by rw [Division.through_code bare,step,same]; simp⟩
    by_cases opens : isOpening c = true
    · refine goes (Division.step_opening opens) fun stays => ?_
      by_cases round : c = '('
      · exact round ▸ List.mem_cons_self
      · rw [shelter,beq_false_of_ne round,Bool.false_or,Bool.and_eq_true] at stays
        exact List.mem_cons_of_mem c (kept stays.1)
    · rw [Bool.not_eq_true] at opens
      have open_of (stays : shelter open_ c = true) : '(' ∈ stack ∧ c ≠ ')' := by
        rw [shelter,Bool.or_eq_true,beq_iff_eq,Bool.and_eq_true,bne_iff_ne] at stays
        rcases stays with rfl | ⟨stays,other⟩
        · cases opens
        · exact ⟨kept stays,other⟩
      by_cases answers : ∃ opening others, stack = opening :: others ∧ opening? c = some opening
      · obtain ⟨opening,others,rfl,closes⟩ := answers
        refine goes (Division.step_closing closes) fun stays => ?_
        obtain ⟨member,other⟩ := open_of stays
        refine (List.mem_cons.mp member).resolve_left ?_
        rintro rfl
        rcases closing_cases closes with ⟨round,_⟩ | ⟨_,wrong⟩ | ⟨_,wrong⟩
        · exact other round
        · cases wrong
        · cases wrong
      · refine goes (Division.step_plain opens ?_ ?_) fun stays => (open_of stays).1
        · intro opening first closes
          obtain ⟨others,rfl⟩ := List.head?_eq_some_iff.mp first
          exact answers ⟨opening,others,rfl,closes⟩
        · by_cases same : c = separator
          · exact .inr (List.ne_nil_of_mem (kept (sheltered.1 (.inl same))))
          · exact .inl same

theorem splitTopLevel_sheltered (sheltered : Sheltered separator false text) :
    splitTopLevel separator text = [text] := by
  obtain ⟨left,same⟩ := @through_sheltered separator false text [] [] [] sheltered nofun
  rw [Division.splitTopLevel_eq,same]
  simp [Division.finish]

end Shelter

/-- An annotation in front of a constant, with the blanks behind it. -/
structure Sign where
  name : List Char
  arguments : Option (List Char) := none
  gap : List Char
  named : name ≠ []
  letters : ∀ c ∈ name, Header.isNameChar c = true
  parted : Blank gap

/-- What may stand in the parentheses of an annotation so that it is read as a whole: a closing one
stands in literals only, and a literal ends before the last one. -/
inductive Whole : List Char → Prop where
  | nil : Whole []
  | code {c : Char} {rest : List Char} : isQuote c = false → c ≠ ')' → Whole rest → Whole (c :: rest)
  | literal {text rest : List Char} : IsLiteral text (rest ++ [')']) → Whole rest →
      Whole (text ++ rest)

namespace Sign
variable (sign : Sign) {rest : List Char}

def text : List Char := '@' :: (sign.name ++ (Constant.brackets sign.arguments ++ sign.gap))

def use : AnnotationUse := ⟨String.ofList sign.name,sign.arguments.map String.ofList⟩

def Unclosed : Prop := ∀ part, sign.arguments = some part → ')' ∉ part

def IsWhole : Prop := ∀ part, sign.arguments = some part → Whole part

theorem apart_gap (rest : List Char) : ∀ c, (sign.gap ++ rest).head? = some c →
    Header.isNameChar c = false ∧ c ≠ '(' := by
  refine @Text.forall_head? _ (fun c => Header.isNameChar c = false ∧ c ≠ '(') sign.parted.1 ?_ rest
  intro c member
  have blank := sign.parted.2 c member
  refine ⟨not_isNameChar_of_isBlank blank,?_⟩
  rintro rfl
  cases blank

theorem takes_arguments {cursor : Cursor}
    (starts : cursor.rest = Constant.brackets sign.arguments ++ (sign.gap ++ rest))
    (unclosed : sign.Unclosed) :
    (optional (sequence [char '(',longest (one (· != ')')),char ')'])).Takes cursor
      (cursor.past (Constant.brackets sign.arguments)) := by
  cases given : sign.arguments with
  | none =>
    rw [given,Constant.brackets,Option.elim_none,List.nil_append] at starts
    rw [Constant.brackets,Option.elim_none,Cursor.past_nil]
    refine takes_optional (.seq (fails_one fun c head => ?_) _)
    rw [starts] at head
    simpa using (sign.apart_gap rest c head).2
  | some part =>
    have opening : cursor.rest = '(' :: (part ++ ')' :: (sign.gap ++ rest)) := by
      rw [starts,given]
      simp [Constant.brackets]
    have inner := Cursor.rest_past ['('] opening
    have close := Cursor.rest_past _ inner
    have solid : ∀ c ∈ part, (c != ')') = true := by
      intro c member
      rw [bne_iff_ne]
      rintro rfl
      exact unclosed part given member
    have content := @takes_longest_one _ (· != ')') _ _ inner solid (by simp)
    have opened : (char '(').Takes cursor _ := takes_one opening rfl
    have closed : (char ')').Takes ((cursor.past ['(']).past part) _ := takes_one close rfl
    have bracketed := (opened.seq (content.seq closed)).left nothing
    rwa [Cursor.past_past,Cursor.past_past] at bracketed

/-- A mark is passed over up to the first closing parenthesis, with the blanks behind it. -/
theorem takes_leadingMark {start : Cursor} (starts : start.rest = sign.text ++ rest)
    (unclosed : sign.Unclosed) (solid : ∀ c, rest.head? = some c → Text.isBlank c = false) :
    leadingMark.Takes start (start.past sign.text) := by
  have shape : start.rest =
      ['@'] ++ (sign.name ++ (Constant.brackets sign.arguments ++ (sign.gap ++ rest))) := by
    simp [starts,text]
  have atName := Cursor.rest_past ['@'] shape
  have atBrackets := Cursor.rest_past _ atName
  have atGap := Cursor.rest_past _ atBrackets
  have apart : ∀ c, (Constant.brackets sign.arguments ++ (sign.gap ++ rest)).head? = some c →
      Header.isNameChar c = false := by
    intro c head
    cases given : sign.arguments with
    | none =>
      rw [given] at head
      exact (sign.apart_gap rest c head).1
    | some part =>
      rw [given] at head
      cases head
      rfl
  have mark : (char '@').Takes start (start.past ['@']) := takes_one shape rfl
  have takes := mark.seq ((@takes_longest1_one _ Header.isNameChar _ _ atName sign.named
    sign.letters apart).seq ((sign.takes_arguments atBrackets unclosed).seq
      (takes_longest_one atGap sign.parted.2 solid)))
  simp only [Cursor.past_past,List.append_assoc] at takes
  exact takes

end Sign

/-- Annotations in front of a name. -/
def signed (signs : List Sign) (name : List Char) : List Char := signs.flatMap Sign.text ++ name

section Signed
variable {signs : List Sign} {name : List Char} {separator : Char}

theorem signed_cons (sign : Sign) (signs : List Sign) (name : List Char) :
    signed (sign :: signs) name = sign.text ++ signed signs name := by simp [signed]

theorem solid_signed (named : OneWord name) :
    ∀ c, (signed signs name).head? = some c → Text.isBlank c = false := by
  cases signs with
  | nil =>
    have solid := named.solid []
    rwa [List.append_nil] at solid
  | cons sign signs =>
    rintro c ⟨⟩
    rfl

theorem takes_leadingMarks (named : OneWord name) (unclosed : ∀ sign ∈ signs, sign.Unclosed)
    {start : Cursor} (starts : start.rest = signed signs name) {limit : Nat}
    (few : signs.length ≤ limit) :
    (upTo limit leadingMark).Takes start (start.past (signs.flatMap Sign.text)) := by
  induction signs generalizing start limit with
  | nil =>
    rw [List.flatMap_nil,Cursor.past_nil]
    refine takes_upTo_stop (.seq (fails_one fun c head => ?_) _) limit
    rw [starts] at head
    have letter := Text.forall_head? named.1 named.2 [] c (by rwa [List.append_nil])
    rw [beq_eq_false_iff_ne]
    rintro rfl
    cases letter
  | cons sign signs ih =>
    rw [List.forall_mem_cons] at unclosed
    rw [signed_cons] at starts
    obtain ⟨limit,rfl⟩ : ∃ more, limit = more + 1 := ⟨limit - 1,by
      rw [List.length_cons] at few
      omega⟩
    have others := ih unclosed.2 (Cursor.rest_past _ starts) (Nat.le_of_succ_le_succ few)
    rw [Cursor.past_past] at others
    exact takes_upTo_step (sign.takes_leadingMark starts unclosed.1 (solid_signed named)) others

theorem nameAt_signed (named : OneWord name) (unclosed : ∀ sign ∈ signs, sign.Unclosed) :
    nameAt (signed signs name) = some (String.ofList name) := by
  have trimmed : Text.trim (signed signs name) = signed signs name := by
    have between := @Text.trim_between [] (signed signs name) [] nofun nofun
      (by simp [signed,named.1]) (solid_signed named) fun c ends => by
        rw [signed,List.getLast?_append_of_ne_nil _ named.1] at ends
        exact Text.isBlank_of_isWord (named.2 c (List.mem_of_getLast? ends))
    simpa using between
  let start : Cursor := ⟨0,none,signed signs name,[]⟩
  have few : signs.length ≤ start.rest.length := by
    change signs.length ≤ (signed signs name).length
    clear unclosed trimmed start
    induction signs with
    | nil => exact Nat.zero_le _
    | cons sign signs ih =>
      rw [signed_cons,List.length_cons,List.length_append,Sign.text,List.length_cons]
      omega
  have atName : (start.past (signs.flatMap Sign.text)).rest = name ++ [] := by
    rw [List.append_nil]
    exact Cursor.rest_past _ rfl
  have marks := takes_many (takes_leadingMarks named unclosed (show start.rest = _ from rfl) few)
  have read := (takes_longest1_one atName named.1 named.2 nofun).capture atName 1
  have takes : constantPattern.Takes start _ := marks.seq read
  rw [nameAt,trimmed,matchStart,matchAt_of_takes takes]
  simp [Match.captured,Match.capture?,Cursor.hold,Cursor.past]

theorem sheltered_signed (named : OneWord name) (unclosed : ∀ sign ∈ signs, sign.Unclosed)
    (other : separator = ';' ∨ separator = ',') (open_ : Bool) :
    Sheltered separator open_ (signed signs name) := by
  have outside {c : Char} (letter : Header.isNameChar c = true ∨ Text.isBlank c = true) :
      c ≠ separator ∧ c ∉ marks := by
    have apart : ∀ mark ∈ ';' :: ',' :: marks,
        Header.isNameChar mark = false ∧ Text.isBlank mark = false := by decide
    have within : c ∉ ';' :: ',' :: marks := by
      intro member
      rcases letter with letter | blank
      · rw [(apart c member).1] at letter
        cases letter
      · rw [(apart c member).2] at blank
        cases blank
    rw [List.mem_cons,List.mem_cons,not_or,not_or] at within
    refine ⟨?_,within.2.2⟩
    rcases other with rfl | rfl
    · exact within.1
    · exact within.2.1
  induction signs generalizing open_ with
  | nil =>
    have calm : Sheltered separator open_ (name ++ []) := sheltered_calm (fun c member =>
      outside (.inl (isNameChar_of_isWord (named.2 c member)))) trivial
    rwa [List.append_nil] at calm
  | cons sign signs ih =>
    rw [List.forall_mem_cons] at unclosed
    have gap (open_ : Bool) : Sheltered separator open_ (sign.gap ++ signed signs name) :=
      sheltered_calm (fun c member => outside (.inr (sign.parted.2 c member))) (ih unclosed.2 open_)
    have mark : ∀ c ∈ '@' :: sign.name, c ≠ separator ∧ c ∉ marks := by
      rw [List.forall_mem_cons]
      refine ⟨⟨?_,by decide⟩,fun c member => outside (.inl (sign.letters c member))⟩
      rcases other with rfl | rfl <;> decide
    have shape : signed (sign :: signs) name = ('@' :: sign.name) ++
        (Constant.brackets sign.arguments ++ (sign.gap ++ signed signs name)) := by
      simp [signed_cons,Sign.text]
    rw [shape]
    refine sheltered_calm mark ?_
    cases given : sign.arguments with
    | none => exact gap open_
    | some part =>
      have inner : Sheltered separator true (part ++ ')' :: (sign.gap ++ signed signs name)) :=
        sheltered_inside (unclosed.1 part given) ⟨fun _ => rfl,gap false⟩
      have apart : ¬('(' = separator ∨ isQuote '(' = true) := by
        rcases other with rfl | rfl <;> decide
      simpa [Constant.brackets,sheltered_cons,shelter,apart] using inner

end Signed

section Read
variable {part inside rest : List Char}

/-- A literal that ends before a parenthesis shows none. -/
theorem unclosed_hollow (whole : IsLiteral inside (rest ++ [')'])) : ')' ∉ hollow inside := by
  intro member
  obtain ⟨i,shown⟩ := List.mem_iff_getElem?.mp member
  rcases hollow_cases shown with first | blank | ⟨_,last⟩
  · obtain ⟨quote,others,rfl,quoted⟩ := whole.opens
    cases first
    cases quoted
  · rcases blank with blank | blank <;> cases blank
  · rcases whole.last last with quoted | line | ended
    · cases quoted
    · cases line
    · simp at ended

/-- Where literals are blank, arguments close with the parenthesis that ends them. -/
theorem Whole.shadow (whole : Whole part) : ∃ shadow, ')' ∉ shadow ∧ shadow.length = part.length ∧
    ∀ more, maskLiterals (part ++ ')' :: more) = shadow ++ ')' :: maskLiterals more := by
  induction whole with
  | nil => exact ⟨[],List.not_mem_nil,rfl,fun more => maskLiterals_code rfl⟩
  | @code c rest bare other _ ih =>
    obtain ⟨shadow,unclosed,length,masked⟩ := ih
    refine ⟨c :: shadow,List.not_mem_cons_of_ne_of_not_mem (Ne.symm other) unclosed,
      congrArg Nat.succ length,fun more => ?_⟩
    rw [List.cons_append,maskLiterals_code bare,masked,List.cons_append]
  | @literal inside rest literal _ ih =>
    obtain ⟨shadow,unclosed,length,masked⟩ := ih
    refine ⟨hollow inside ++ shadow,by simp [unclosed_hollow literal,unclosed],?_,fun more => ?_⟩
    · rw [List.length_append,List.length_append,length,← (shows_hollow inside).length_eq]
    · have ends := literal_in_front literal (by decide : ')' ≠ '"') more
      obtain ⟨quote,others,rfl,quoted⟩ := ends.opens
      rw [List.append_assoc,List.cons_append,maskLiterals_literal quoted ends.length,masked,
        List.append_assoc]

open AnnotationUse (Extent ofMatch ofMatch_found)

/-- An annotation is found with its full extent where literals are blank, and read from the text. -/
theorem Sign.exists_extent (sign : Sign) (whole : sign.IsWhole) : ∃ extent : Extent,
    (∀ more, maskLiterals (sign.text ++ more) = extent.text ++ (sign.gap ++ maskLiterals more)) ∧
    extent.text.length + sign.gap.length = sign.text.length ∧
    ∀ front more, ofMatch (front ++ (sign.text ++ more)) (extent.found front.length) = sign.use := by
  have mark : ∀ c ∈ '@' :: sign.name, isInert c = true := List.forall_mem_cons.mpr
    ⟨rfl,fun c member => isInert_of_isNameChar (sign.letters c member)⟩
  have gap := maskLiterals_inert (inert_blank sign.parted.2)
  unfold Sign.text Sign.use Sign.IsWhole at *
  cases given : sign.arguments with
  | none =>
    refine ⟨⟨sign.name,none,sign.named,sign.letters,nofun⟩,fun more => ?_,?_,fun front more => ?_⟩
    · have masked := maskLiterals_inert mark (sign.gap ++ more)
      rw [gap] at masked
      simpa [Constant.brackets,Extent.text,Extent.brackets] using masked
    · simp only [Constant.brackets,Extent.text,Extent.brackets,Option.elim_none,List.length_cons,
        List.length_append,List.length_nil,List.nil_append]
      omega
    · rw [ofMatch_found]
      rfl
  | some part =>
    obtain ⟨shadow,unclosed,length,masked⟩ := (whole part given).shadow
    refine ⟨⟨sign.name,some shadow,sign.named,sign.letters,?_⟩,fun more => ?_,?_,fun front more => ?_⟩
    · rintro _ ⟨⟩
      exact unclosed
    · have whole := maskLiterals_inert mark ('(' :: (part ++ ')' :: (sign.gap ++ more)))
      rw [maskLiterals_code rfl,masked,gap] at whole
      simpa [Constant.brackets,Extent.text,Extent.brackets] using whole
    · simp only [Constant.brackets,Extent.text,Extent.brackets,Option.elim_some,List.length_cons,
        List.length_append,List.length_nil,length]
      omega
    · rw [ofMatch_found]
      have arguments : Text.slice (front ++ ('@' :: (sign.name ++ (Constant.brackets (some part) ++
          sign.gap)) ++ more)) (front.length + sign.name.length + 2)
          (front.length + sign.name.length + 2 + shadow.length) = part := by
        refine @Text.slice_part _ _ _ (front ++ '@' :: (sign.name ++ ['('])) part
          (')' :: (sign.gap ++ more)) ?_ ?_ (by rw [length])
        · simp [Constant.brackets]
        · simp only [List.length_append,List.length_cons,List.length_nil]
          omega
      rw [Option.map_some,arguments]
      rfl

variable {signs : List Sign} {name : List Char}

theorem findFrom_signed (named : OneWord name) (whole : ∀ sign ∈ signs, sign.IsWhole)
    (border : Option Char) (front : List Char) :
    (AnnotationUse.pattern.findFrom border front.length (maskLiterals (signed signs name))).map
      (ofMatch (front ++ signed signs name)) = signs.map Sign.use := by
  induction signs generalizing border front with
  | nil =>
    have inert := maskLiterals_inert (fun c member =>
      isInert_of_isNameChar (isNameChar_of_isWord (named.2 c member))) []
    have unmarked : '@' ∉ name := fun member => by cases named.2 _ member
    have missed := findFrom_misses (@AnnotationUse.misses_unmarked name [] unmarked) border front.length
    rw [List.append_nil,findFrom_nil] at missed
    rw [List.append_nil] at inert
    have bare : maskLiterals (signed [] name) = name := inert.trans (List.append_nil name)
    rw [bare,missed]
    rfl
  | cons sign signs ih =>
    rw [List.forall_mem_cons] at whole
    obtain ⟨extent,masked,length,use⟩ := sign.exists_extent whole.1
    have matched := extent.matchAt_text (sign.apart_gap (maskLiterals (signed signs name))) border
      front.length
    have nonempty : extent.text ≠ [] := List.cons_ne_nil _ _
    have unmarked : '@' ∉ sign.gap := fun member => by cases sign.parted.2 _ member
    have later := ih whole.2 (sign.gap.getLast?.or (extent.text.getLast?.or border)) (front ++ sign.text)
    rw [List.length_append,← length,← Nat.add_assoc,List.append_assoc] at later
    rw [signed_cons,masked,findFrom_found nonempty matched rfl,
      findFrom_misses (AnnotationUse.misses_unmarked unmarked),List.map_cons,List.map_cons,later,use]

/-- Annotations in front of a constant leave its name alone if no argument of theirs holds a closing
parenthesis, whatever else it holds; and they are read with the arguments they were written with also
where closing parentheses stand in literals. -/
theorem constants_signed (named : OneWord name) :
    ((∀ sign ∈ signs, sign.Unclosed) →
      Enums.constants (signed signs name) = [String.ofList name]) ∧
    ((∀ sign ∈ signs, sign.IsWhole) →
      AnnotationUse.readAll (signed signs name) = signs.map Sign.use) := by
  refine ⟨fun unclosed => ?_,fun whole => findFrom_signed named whole none []⟩
  rw [constants_eq,splitTopLevel_sheltered (sheltered_signed named unclosed (.inl rfl) false),
    List.headD_cons,splitTopLevel_sheltered (sheltered_signed named unclosed (.inr rfl) false),
    List.filterMap_cons_some (nameAt_signed named unclosed)]
  rfl

end Read

/-- An annotation with separators and a stray bracket in its argument. -/
def sampleNames : Sign where
  name := "Names".toList
  arguments := some "\x7b\"a;\", 'b'".toList
  gap := ['\n']
  named := by decide
  letters := by decide
  parted := ⟨by decide,by decide⟩

/-- An annotation with a closing parenthesis in its literal. -/
def sampleSize : Sign where
  name := "Size".toList
  arguments := some "\"a)\"".toList
  gap := [' ']
  named := by decide
  letters := by decide
  parted := ⟨by decide,by decide⟩

theorem isWhole_sampleSize : sampleSize.IsWhole := by
  rintro _ ⟨⟩
  exact .literal (@isLiteral_of_length '"' "a)\"".toList ([] ++ [')']) rfl (by decide)) .nil

theorem constants_signed_names :
    signed [sampleNames] ['N'] = "@Names(\x7b\"a;\", 'b')\nN".toList ∧ OneWord ['N'] ∧
    Enums.constants (signed [sampleNames] ['N']) = ["N"] ∧
    AnnotationUse.readAll (signed [sampleSize] ['N']) = [⟨"Size",some "\"a)\""⟩] := by
  refine ⟨by decide,by decide,(constants_signed (by decide)).1 (List.forall_mem_singleton.mpr ?_),
    (constants_signed (by decide)).2 (List.forall_mem_singleton.mpr isWhole_sampleSize)⟩
  rintro _ ⟨⟩
  decide

/-- A closing parenthesis in a literal ends the arguments where a constant is named, though not where
annotations are read. -/
theorem constants_misread : signed [sampleSize] ['N'] = "@Size(\"a)\") N".toList ∧
    sampleSize.IsWhole ∧ Enums.constants (signed [sampleSize] ['N']) = ["e"] :=
  ⟨by decide,isWhole_sampleSize,by decide⟩

end JavaAtlas.Enums
