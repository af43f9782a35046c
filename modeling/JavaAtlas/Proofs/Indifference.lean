import JavaAtlas.Java.Extraction
import JavaAtlas.Proofs.Cuts
import JavaAtlas.Proofs.Locality
import JavaAtlas.Proofs.Preambles
import JavaAtlas.Proofs.Rewordings
import JavaAtlas.Proofs.Sites
import JavaAtlas.Proofs.Verbatim

/-! Operations of texts that differ in what their literals say. Methods and annotations are found
where literals are blank, so that the same ones are found in both texts; an operation then depends on
the literals that are read for a value, and on what is searched for in the text with its literals. -/
namespace JavaAtlas
open Lexical

section Values

/-- The annotations that are read for their values. -/
def valueNames : List String := ["Path","Consumes","Produces"]

/-- Whether the text begins with such an annotation and ends within its arguments. -/
def opensValue : List Char → Bool
  | '@' :: rest =>
    match rest.dropWhile Header.isNameChar with
    | '(' :: inside => !inside.isEmpty && !inside.contains ')' &&
        valueNames.contains (simpleName (String.ofList (rest.takeWhile Header.isNameChar)))
    | _ => false
  | _ => false

/-- The place belongs to the arguments of an annotation that is read for its value, as the text shows
where literals are blank. -/
def Valued (structural : List Char) (i : Nat) : Prop :=
  ∃ start ∈ List.range i, opensValue (Text.slice structural start (i + 1)) = true

instance (structural : List Char) (i : Nat) : Decidable (Valued structural i) :=
  inferInstanceAs (Decidable (∃ start ∈ List.range i,
    opensValue (Text.slice structural start (i + 1)) = true))

theorem opensValue_of {name inside : List Char} (letters : ∀ c ∈ name, Header.isNameChar c = true)
    (further : inside ≠ []) (unclosed : ')' ∉ inside)
    (read : simpleName (String.ofList name) ∈ valueNames) :
    opensValue ('@' :: (name ++ '(' :: inside)) = true := by
  have dropped := Text.dropWhile_stop letters (a := '(') rfl inside
  have taken := Text.takeWhile_stop letters (a := '(') rfl inside
  simp [opensValue,dropped,taken,further,unclosed,read]

namespace AnnotationUse
open Pattern

/-- The annotations are named the same, and are the same if they are read for their values. -/
structure Alike (one two : AnnotationUse) : Prop where
  name : one.name = two.name
  same : one.simpleName ∈ valueNames → one = two

theorem Alike.simpleName_eq {one two : AnnotationUse} (alike : Alike one two) :
    one.simpleName = two.simpleName := by
  rw [simpleName,simpleName,alike.name]

variable {structural front more part tail : List Char} {start n i : Nat} (extent : Extent)

theorem valued_of_extent
    (seen : Text.slice structural start n ++ tail = front ++ (extent.text ++ more))
    (short : tail.length ≤ 1) (arguments : extent.inside = some part)
    (read : JavaAtlas.simpleName (String.ofList extent.name) ∈ valueNames)
    (low : front.length + extent.name.length + 2 ≤ i)
    (high : i < front.length + extent.name.length + 2 + part.length) :
    Valued structural (start + i) := by
  obtain ⟨k,rfl⟩ := Nat.exists_eq_add_of_le low
  let opening := '@' :: (extent.name ++ '(' :: part.take (k + 1))
  have size : opening.length = extent.name.length + 2 + (k + 1) := by
    simp only [opening,List.length_cons,List.length_append,List.length_take]
    omega
  have shape : Text.slice structural start n ++ tail =
      front ++ (opening ++ (part.drop (k + 1) ++ ')' :: more)) := by
    have whole : part.take (k + 1) ++ (part.drop (k + 1) ++ ')' :: more) = part ++ ')' :: more := by
      rw [← List.append_assoc,List.take_append_drop]
    rw [seen,Extent.text,arguments]
    simp [opening,Extent.brackets,whole]
  have shown := Text.slice_within shape (by simp; omega)
  have place : start + (front.length + extent.name.length + 2 + k) + 1 =
      start + (front.length + opening.length) := by omega
  refine ⟨start + front.length,List.mem_range.mpr (by omega),?_⟩
  rw [place,shown]
  apply opensValue_of extent.letters _ _ read
  · intro empty
    have zero := congrArg List.length empty
    rw [List.length_take,List.length_nil] at zero
    omega
  · exact fun member => extent.unclosed part arguments (List.mem_of_mem_take member)

variable {one two : List Char} {stop : Nat}

theorem ofMatch_alike (position : Nat)
    (same : ∀ part, extent.inside = some part →
      JavaAtlas.simpleName (String.ofList extent.name) ∈ valueNames →
        ∀ i, position + extent.name.length + 2 ≤ i →
          i < position + extent.name.length + 2 + part.length → one[i]? = two[i]?) :
    Alike (ofMatch one (extent.found position)) (ofMatch two (extent.found position)) := by
  rw [ofMatch_found,ofMatch_found]
  refine ⟨rfl,fun read => ?_⟩
  cases arguments : extent.inside with
  | none => rfl
  | some part =>
    rw [Option.map_some,Option.map_some,Text.slice_congr (same part arguments read)]

/-- In the same stretch of both texts the same annotations stand. -/
theorem readAll_alike (masks : maskLiterals one = maskLiterals two)
    (begins : Begins (maskLiterals one) start) (last : ∀ n, stop = n + 1 → one[n]? = two[n]?)
    (aside : ∀ i, one[i]? ≠ two[i]? → ¬Valued (maskLiterals one) i) :
    List.Forall₂ Alike (readAll (Text.slice one start stop)) (readAll (Text.slice two start stop)) := by
  rcases Nat.lt_or_ge start stop with low | beyond
  · obtain ⟨n,rfl⟩ := Nat.exists_eq_succ_of_ne_zero (Nat.ne_of_gt (Nat.zero_lt_of_lt low))
    have before : start ≤ n := Nat.le_of_lt_succ low
    -- The mask of the stretch shows its last character too, which the mask of the text may hide.
    have first := maskLiterals_slice begins before
    have second := maskLiterals_slice (masks ▸ begins) before
    rw [← masks,← last n rfl,← first] at second
    rw [readAll_eq,readAll_eq,second,List.forall₂_map_left_iff,List.forall₂_map_right_iff,
      List.forall₂_same]
    intro found member
    obtain ⟨extent,front,more,rfl,seen⟩ := exists_standing member
    have short : one[n]?.toList.length ≤ 1 := by cases one[n]? <;> simp
    refine ofMatch_alike extent _ fun part arguments read i low high => ?_
    by_contra differs
    apply aside (start + i) _ (valued_of_extent extent (first ▸ seen) short arguments read low high)
    intro equal
    apply differs
    rw [Text.getElem?_slice,Text.getElem?_slice,equal]
  · have empty (text : List Char) : Text.slice text start stop = [] := by
      rw [Text.slice,List.drop_eq_nil_iff,List.length_take]
      omega
    rw [empty,empty]
    exact .nil

end AnnotationUse

end Values

namespace Method
open Pattern

/-- The methods are named the same and have annotations alike. -/
structure Alike (one two : Method) : Prop where
  name : one.name = two.name
  annotations : List.Forall₂ AnnotationUse.Alike one.annotations two.annotations

theorem brace_of_found {text : List Char} {found : Match} (member : found ∈ pattern.findAll text)
    {n : Nat} (stop : found.stop = n + 1) : text[n]? = some '\x7b' := by
  obtain ⟨shape,front,more,rfl,whole⟩ := exists_standing member
  rw [shape.text_eq,List.append_assoc] at whole
  have place : n = front.length + shape.declared.length := by
    rw [Shape.found,shape.text_eq,List.length_append] at stop
    exact Nat.succ_injective stop.symm
  rw [whole,place,← List.append_assoc,← List.length_append,
    List.getElem?_append_right (Nat.le_refl _),Nat.sub_self]
  rfl

variable {one two : List Char}

/-- In texts that differ in literals alone the same methods stand. -/
theorem readAll_alike (reworded : Reworded one two)
    (aside : ∀ i, one[i]? ≠ two[i]? → ¬Valued (maskLiterals (maskComments one)) i) :
    List.Forall₂ Alike (readAll one) (readAll two) := by
  have masks := reworded.masks_eq
  unfold readAll
  dsimp only
  rw [← masks]
  let founds := pattern.findAll (maskLiterals (maskComments one))
  have each : List.Forall₂ (fun first second => first = second ∧ first ∈ founds) founds founds :=
    List.forall₂_same.mpr fun found member => ⟨rfl,member⟩
  refine List.rel_filterMap ?_ each
  rintro found _ ⟨rfl,member⟩
  unfold ofMatch
  cases found.capture? 1 with
  | none => exact .none
  | some name =>
    rw [Option.bind_some,Option.bind_some]
    dsimp only
    split
    · exact .none
    · refine .some ⟨rfl,AnnotationUse.readAll_alike masks (boundary_of_declarationStart _ _) ?_ ?_⟩
      · intro n stop
        have brace := brace_of_found member stop
        rw [getElem?_of_shown brace (by decide),getElem?_of_shown (masks ▸ brace) (by decide)]
      · exact fun i differs => aside i fun same => differs (reworded.kept same)

end Method

namespace Header
open Pattern

/-- The name behind the keyword of a package clause. -/
def packageName (clause : List Char) : List Char :=
  ((clause.drop "package".toList.length).dropWhile Text.isBlank).takeWhile isNameChar

/-- What is captured is the name in the clause, whatever follows it. -/
theorem captured_of_package {before : Option Char} {position : Nat} {rest : List Char} {found : Match}
    (matched : packagePattern.matchAt before position rest = some found) (more : List Char) :
    packageName (found.text ++ more) = found.captured 1 := by
  obtain ⟨stop,way,rfl⟩ := reaches_of_matchAt matched
  obtain ⟨_,⟨_,rfl⟩,_,keyword,_,opening,_,⟨called,naming,rfl⟩,_,closing,ending⟩ := way
  have covered : blanks.Over fun c => Text.isBlank c = true := fun _ => id
  have one := spells_of_literal keyword
  obtain ⟨gap,_,blank,two⟩ := spells_of_longest1 opening
  obtain ⟨name,named,letters,three⟩ := spells_of_longest1 naming
  obtain ⟨space,spaced,four⟩ := covered.spells rfl closing
  obtain ⟨_,semicolon,five⟩ := spells_of_one ending
  cases beq_iff_eq.mp semicolon
  obtain ⟨starts,reached,captures⟩ := Cursor.captured_of_spells (one.append two) three (four.append five)
  have text : rest.take (stop.position - position) =
      "package".toList ++ (gap ++ (name ++ (space ++ [';']))) := by
    rw [reached,Nat.add_sub_cancel_left,starts]
    simp [← List.append_assoc]
  obtain ⟨c,others,rfl⟩ := List.exists_cons_of_ne_nil named
  obtain ⟨d,after,shape,leaves⟩ : ∃ d after,
      space ++ ';' :: more = d :: after ∧ isNameChar d = false := by
    cases space with
    | nil => exact ⟨_,_,rfl,rfl⟩
    | cons d space => exact ⟨_,_,rfl,not_isNameChar_of_isBlank (spaced d List.mem_cons_self)⟩
  have apart := isBlank_of_isNameChar (letters c List.mem_cons_self)
  simp only [packageName,Match.captured,Match.capture?,text,captures,List.append_assoc,
    List.drop_left,List.singleton_append,shape]
  rw [List.cons_append,Text.dropWhile_stop blank apart,← List.cons_append,
    Text.takeWhile_stop letters leaves]
  rfl

variable {one two : List Char}

theorem packageOf_kept (first : ∀ found ∈ packagePattern.search one, Kept one two found)
    (second : ∀ found ∈ packagePattern.search two, Kept one two found) :
    packageOf one = packageOf two := by
  have starts := start_of_kept rfl first second
  unfold packageOf
  generalize here : packagePattern.search one = searched at starts ⊢
  generalize there : packagePattern.search two = searchedToo at starts ⊢
  cases starts with
  | none => rfl
  | @some found other same =>
    obtain ⟨before,rest,whole,length,stop,matched⟩ := found_in_place here
    obtain ⟨ahead,behind,shape,size,_,matchedToo⟩ := found_in_place there
    obtain ⟨front,back,again,place,_,_⟩ := (first found here).stands whole length stop
    have shown := (List.append_inj (again.symm.trans shape) (by omega)).2
    dsimp only
    rw [← captured_of_package matched back,← captured_of_package matchedToo behind,shown]

theorem hasRestMarker_of_slice {marker : String} (member : marker ∈ restMarkers) {start stop : Nat}
    {text : List Char} (shown : Text.slice text start stop = marker.toList) :
    hasRestMarker text = true := by
  rw [hasRestMarker,List.any_eq_true]
  refine ⟨marker,member,?_⟩
  rw [← List.take_append_drop stop text,← List.take_append_drop start (text.take stop),
    List.append_assoc]
  change Text.occursIn _ (_ ++ (Text.slice text start stop ++ _)) = true
  rw [shown]
  exact Text.occursIn_append _ _ _

end Header

namespace Endpoint
open Pattern
open AnnotationUse (Alike)

section Values
variable {firsts seconds : List AnnotationUse} {name : String}

theorem filter_alike (alike : List.Forall₂ Alike firsts seconds) (read : name ∈ valueNames) :
    firsts.filter (fun mark => mark.simpleName == name) =
      seconds.filter fun mark => mark.simpleName == name := by
  induction alike with
  | nil => rfl
  | @cons first second firsts seconds here _ ih =>
    by_cases named : first.simpleName = name
    · obtain rfl := here.same (named ▸ read)
      rw [List.filter_cons_of_pos (by simpa using named),List.filter_cons_of_pos
        (by simpa using named),ih]
    · have other : second.simpleName ≠ name := here.simpleName_eq ▸ named
      rw [List.filter_cons_of_neg (by simpa using named),List.filter_cons_of_neg (by simpa using other),
        ih]

theorem firstValue_alike (alike : List.Forall₂ Alike firsts seconds) (read : name ∈ valueNames) :
    firstValue firsts name = firstValue seconds name := by
  rw [firstValue,firstValue,← List.head?_filter,← List.head?_filter,filter_alike alike read]

theorem anyValue_alike (alike : List.Forall₂ Alike firsts seconds) (read : name ∈ valueNames) :
    anyValue firsts name = anyValue seconds name := by
  rw [anyValue,anyValue,filter_alike alike read]

theorem firstVerb_alike (alike : List.Forall₂ Alike firsts seconds) :
    firstVerb firsts = firstVerb seconds := by
  have names : firsts.map AnnotationUse.simpleName = seconds.map AnnotationUse.simpleName := by
    rw [← List.forall₂_eq_eq_eq,List.forall₂_map_left_iff,List.forall₂_map_right_iff]
    exact alike.imp fun _ _ => Alike.simpleName_eq
  rw [firstVerb,names]
  rfl

end Values

theorem ofMethod_alike {unit other : CompilationUnit} (name : unit.name = other.name)
    (package : unit.package = other.package) {onClass onOther : List AnnotationUse}
    (alike : List.Forall₂ Alike onClass onOther) {one two : Method} (methods : one.Alike two) :
    ofMethod unit onClass one = ofMethod other onOther two := by
  have path := firstValue_alike alike (show "Path" ∈ valueNames by decide)
  have consumes := firstValue_alike alike (show "Consumes" ∈ valueNames by decide)
  have produces := firstValue_alike alike (show "Produces" ∈ valueNames by decide)
  have ownPath := anyValue_alike methods.annotations (show "Path" ∈ valueNames by decide)
  have ownConsumes := anyValue_alike methods.annotations (show "Consumes" ∈ valueNames by decide)
  have ownProduces := anyValue_alike methods.annotations (show "Produces" ∈ valueNames by decide)
  rw [ofMethod,ofMethod,firstVerb_alike methods.annotations,methods.name,name,package,path,consumes,
    produces,ownPath,ownConsumes,ownProduces]

section Declared
variable {one two name : List Char}

/-- The declaration of the named type or, if it is not declared, of the first type that is. -/
def declared? (masked name : List Char) : Option Match :=
  ((typePattern (literal name)).search masked).or
    ((typePattern (longest1 (Pattern.one Text.isWord))).search masked)

theorem typePreamble_eq (content name : List Char) : typePreamble content name =
    match declared? (maskComments content) name with
    | some found => Text.slice (maskComments content)
        (declarationStart (maskLiterals (maskComments content)) found.start) found.start
    | none => [] := rfl

theorem isLocal_typePattern {pattern : Pattern} (simple : pattern.isLocal = true) :
    (typePattern pattern).isLocal = true := by
  simp [typePattern,Pattern.sequence,choice,word,blanks1,longest1,isLocal,isLocal_literal,simple]

theorem bounds_of_declared {masked : List Char} {found : Match}
    (declared : declared? masked name = some found) :
    found.start ≤ found.stop ∧ found.stop ≤ masked.length := by
  have standing {pattern : Pattern} (searched : pattern.search masked = some found) :
      found.start ≤ found.stop ∧ found.stop ≤ masked.length := by
    obtain ⟨_,_,whole,_,stop,_⟩ := found_in_place searched
    have length := congrArg List.length whole
    simp only [List.length_append] at length
    omega
  rw [declared?,Option.or_eq_some_iff] at declared
  rcases declared with named | ⟨_,other⟩
  · exact standing named
  · exact standing other

theorem declared_kept (first : ∀ found ∈ declared? one name, Kept one two found)
    (second : ∀ found ∈ declared? two name, Kept one two found) :
    Option.Rel (fun found other => found.start = other.start) (declared? one name)
      (declared? two name) := by
  unfold declared? at first second ⊢
  have named := start_of_kept (isLocal_typePattern (isLocal_literal name))
    (fun found searched => first found (by rw [searched]; rfl))
    (fun found searched => second found (by rw [searched]; rfl))
  generalize (typePattern (literal name)).search one = here at named first ⊢
  generalize (typePattern (literal name)).search two = there at named second ⊢
  cases named with
  | some same => exact .some same
  | none => exact start_of_kept (isLocal_typePattern rfl) first second

end Declared

end Endpoint

section Operations
open Header Pattern

/-- What is searched for in the text with its literals stands where the other text is the same. -/
structure Sought (one two name : List Char) : Prop where
  package : ∀ found ∈ packagePattern.search (maskComments one), Kept one two found
  declared : ∀ found ∈ Endpoint.declared? (maskComments one) name, Kept one two found
  marked : hasRestMarker (maskComments one) = true → ∃ marker ∈ restMarkers, ∃ start < one.length,
    Text.slice (maskComments one) start (start + marker.length) = marker.toList ∧
      Text.slice (maskComments two) start (start + marker.length) = marker.toList

instance (one two name : List Char) : Decidable (Sought one two name) :=
  decidable_of_iff (_ ∧ _ ∧ _)
    ⟨fun ⟨package,declared,marked⟩ => ⟨package,declared,marked⟩,
      fun ⟨package,declared,marked⟩ => ⟨package,declared,marked⟩⟩

/-- The texts differ in no argument that is read for a value. -/
def SameValues (one two : List Char) : Prop :=
  ∀ i < one.length, one[i]? ≠ two[i]? → ¬Valued (maskLiterals (maskComments one)) i

instance (one two : List Char) : Decidable (SameValues one two) :=
  inferInstanceAs (Decidable (∀ i < one.length, one[i]? ≠ two[i]? →
    ¬Valued (maskLiterals (maskComments one)) i))

variable {one two name : List Char}

theorem Lexical.Reworded.kept_masks (reworded : Reworded one two) {found : Match}
    (kept : Kept one two found) : Kept (maskComments one) (maskComments two) found :=
  fun i high low => reworded.kept (kept i high low)

theorem Sought.hasRestMarker (sought : Sought one two name)
    (marked : hasRestMarker (maskComments one) = true) : hasRestMarker (maskComments two) = true := by
  obtain ⟨marker,member,start,_,_,there⟩ := sought.marked marked
  exact hasRestMarker_of_slice member there

theorem typePreamble_alike (reworded : Reworded one two)
    (aside : ∀ i, one[i]? ≠ two[i]? → ¬Valued (maskLiterals (maskComments one)) i)
    (first : Sought one two name) (second : Sought two one name) :
    List.Forall₂ AnnotationUse.Alike (AnnotationUse.readAll (Endpoint.typePreamble one name))
      (AnnotationUse.readAll (Endpoint.typePreamble two name)) := by
  have starts := Endpoint.declared_kept
    (fun found here => reworded.kept_masks (first.declared found here))
    (fun found here => reworded.kept_masks (second.declared found here).symm)
  rw [Endpoint.typePreamble_eq,Endpoint.typePreamble_eq]
  generalize here : Endpoint.declared? (maskComments one) name = declared at starts ⊢
  generalize Endpoint.declared? (maskComments two) name = declaredToo at starts ⊢
  cases starts with
  | none => exact .nil
  | @some found other same =>
    dsimp only
    rw [← same,← reworded.masks_eq]
    refine AnnotationUse.readAll_alike reworded.masks_eq (boundary_of_declarationStart _ _) ?_
      fun i differs => aside i fun same => differs (reworded.kept same)
    intro n before
    have reached := (Endpoint.bounds_of_declared here).1
    exact reworded.kept (first.declared found here n (by omega) (by omega))

theorem Endpoint.readAll_alike {unit other : CompilationUnit} (named : unit.name = other.name)
    (package : unit.package = other.package)
    (methods : List.Forall₂ Method.Alike unit.methods other.methods)
    (preambles : List.Forall₂ AnnotationUse.Alike
      (AnnotationUse.readAll (typePreamble one unit.name.toList))
      (AnnotationUse.readAll (typePreamble two other.name.toList)))
    (marked : hasRestMarker (maskComments one) = hasRestMarker (maskComments two)) :
    readAll one unit = readAll two other := by
  rw [readAll,readAll,marked]
  split
  · rw [← List.forall₂_eq_eq_eq]
    refine List.rel_filterMap (fun first second alike => ?_) methods
    rw [ofMethod_alike named package preambles alike]
    cases ofMethod other _ second with
    | none => exact .none
    | some => exact .some rfl
  · rfl

namespace Extraction

/-- Operations do not depend on the wording of literals, apart from those that are read for a value,
as long as no such wording is taken for a package clause, a type declaration or a marker. -/
theorem endpoints_reworded {file : String} (reworded : Reworded one two)
    (values : SameValues one two) (first : Sought one two (unitName file).toList)
    (second : Sought two one (unitName file).toList) (language : String) :
    (read? one file language).map endpoints = (read? two file language).map endpoints := by
  have apart : ∀ i, one[i]? ≠ two[i]? → ¬Valued (maskLiterals (maskComments one)) i :=
    fun i differs => values i (reworded.differs differs) differs
  have package : packageOf (maskComments one) = packageOf (maskComments two) :=
    packageOf_kept (fun found here => reworded.kept_masks (first.package found here))
      (fun found here => reworded.kept_masks (second.package found here).symm)
  have marked : hasRestMarker (maskComments one) = hasRestMarker (maskComments two) :=
    Bool.eq_iff_iff.mpr ⟨first.hasRestMarker,second.hasRestMarker⟩
  have same : (ofText one file).endpoints = (ofText two file).endpoints :=
    Endpoint.readAll_alike rfl package (Method.readAll_alike reworded apart)
      (typePreamble_alike reworded apart first second) marked
  unfold read?
  split
  · exact congrArg some same
  · rfl

/-- A type with a description and an operation. -/
def described (description : String) : List Char :=
  "package p;\n@Info(\"".toList ++ (description.toList ++
    "\") @Path(\"/a\")\nclass Foo \x7b @GET public int m() \x7b\x7d \x7d".toList)

theorem endpoints_described :
    Reworded (described "The other Foo") (described "The thing Foo") ∧
    SameValues (described "The other Foo") (described "The thing Foo") ∧
    Sought (described "The other Foo") (described "The thing Foo") (unitName "Foo.java").toList ∧
    Sought (described "The thing Foo") (described "The other Foo") (unitName "Foo.java").toList ∧
    (read? (described "The other Foo") "Foo.java" "java").map endpoints =
      (read? (described "The thing Foo") "Foo.java" "java").map endpoints ∧
    (read? (described "The other Foo") "Foo.java" "java").map
      (fun read => read.endpoints.map Endpoint.path) = some ["/a"] := by
  have reworded : Reworded (described "The other Foo") (described "The thing Foo") := by
    decide +kernel
  have values : SameValues (described "The other Foo") (described "The thing Foo") := by
    decide +kernel
  have first : Sought (described "The other Foo") (described "The thing Foo")
      (unitName "Foo.java").toList := by
    decide +kernel
  have second : Sought (described "The thing Foo") (described "The other Foo")
      (unitName "Foo.java").toList := by
    decide +kernel
  exact ⟨reworded,values,first,second,endpoints_reworded reworded values first second "java",
    by decide +kernel⟩

/-- A description that reads like the declaration hides the annotations behind it. -/
theorem endpoints_misread :
    Reworded (described "The class Foo") (described "The thing Foo") ∧
    SameValues (described "The class Foo") (described "The thing Foo") ∧
    (read? (described "The class Foo") "Foo.java" "java").map
      (fun read => read.endpoints.map Endpoint.path) = some [""] ∧
    (read? (described "The thing Foo") "Foo.java" "java").map
      (fun read => read.endpoints.map Endpoint.path) = some ["/a"] := by
  decide +kernel

end Extraction

end Operations

end JavaAtlas
