import JavaAtlas.Proofs.Blocks
import JavaAtlas.Proofs.Declarations

/-! Documentation of methods. A method gets what the last block before its declaration says. Where
no mark of a documentation comment strays into a literal or another comment, the blocks before a
declaration are the documentation comments there; a stray mark opens a block that may swallow
them. -/
namespace JavaAtlas

namespace Method
open Lexical Pattern

section Order
variable {α : Type} {items : List α}

theorem eq_or_le_getLast {low high : α → Nat}
    (ordered : items.Pairwise fun first second => high first ≤ low second) {item last : α}
    (ends : items.getLast? = some last) (member : item ∈ items) :
    item = last ∨ high item ≤ low last := by
  obtain ⟨front,rfl⟩ := List.getLast?_eq_some_iff.mp ends
  rcases List.mem_append.mp member with before | here
  · exact .inr ((List.pairwise_append.mp ordered).2.2 item before last List.mem_cons_self)
  · exact .inl (List.mem_singleton.mp here)

theorem takeWhile_eq_filter {kind : α → Bool}
    (ordered : items.Pairwise fun first second => kind second = true → kind first = true) :
    items.takeWhile kind = items.filter kind := by
  induction items with
  | nil => rfl
  | cons item items ih =>
    obtain ⟨first,others⟩ := List.pairwise_cons.mp ordered
    cases here : kind item with
    | true => rw [List.takeWhile_cons_of_pos here,List.filter_cons_of_pos here,ih others]
    | false =>
      rw [List.takeWhile_cons_of_neg (by simp [here]),List.filter_cons_of_neg (by simp [here])]
      refine (List.filter_eq_nil_iff.mpr ?_).symm
      intro other member later
      rw [first other member later] at here
      cases here

theorem getLast?_filter {kind : α → Bool}
    (ordered : items.Pairwise fun first second => kind first = true → kind second = true) :
    (items.filter kind).getLast? = items.getLast?.filter kind := by
  rcases items.eq_nil_or_concat with rfl | ⟨front,last,rfl⟩
  · rfl
  · rw [List.concat_eq_append] at ordered ⊢
    rw [List.filter_append,List.getLast?_concat]
    cases here : kind last with
    | true => simp [here,Option.filter]
    | false =>
      have dropped : front.filter kind = [] := by
        rw [List.filter_eq_nil_iff]
        intro item member early
        have late := (List.pairwise_append.mp ordered).2.2 item member last List.mem_cons_self early
        rw [late] at here
        cases here
      simp [here,dropped,Option.filter]

end Order

section Attached
variable {content : List Char} {preamble declaration : Nat}

/-- The documentation comments between two places. -/
def documentationIn (content : List Char) (preamble declaration : Nat) : List (Nat × List Char) :=
  (documentation content).filter fun comment =>
    preamble ≤ comment.1 && comment.1 + comment.2.length ≤ declaration

/-- What the last documentation comment before a declaration says, if it ends within reach. -/
def documented (content : List Char) (preamble declaration : Nat) : String :=
  match (documentationIn content preamble declaration).getLast? with
  | some (place,text) =>
    if declaration < place + text.length + reach then String.ofList (Text.trim (interior text)) else ""
  | none => ""

/-- The mark of a documentation comment outside of all of these, in a literal or in another comment,
with the end of the next closing mark. -/
def Stray (content : List Char) (start stop : Nat) : Prop :=
  ∃ inside, Opens (content.drop start) inside ∧ stop = start + (inside.length + 5) ∧
    ∀ comment ∈ documentation content,
      ¬(comment.1 ≤ start ∧ start + 3 ≤ comment.1 + comment.2.length)

theorem stray_or_documentation {start : Nat} {inside : List Char}
    (opens : Opens (content.drop start) inside) :
    Stray content start (start + (inside.length + 5)) ∨ ∃ comment ∈ documentation content,
      comment.1 ≤ start ∧ start + (inside.length + 5) = comment.1 + comment.2.length := by
  by_cases within : ∃ comment ∈ documentation content,
      comment.1 ≤ start ∧ start + 3 ≤ comment.1 + comment.2.length
  · obtain ⟨comment,member,after,within⟩ := within
    exact .inr ⟨comment,member,after,opens.ends_documentation member after within⟩
  · simp only [not_exists,not_and] at within
    exact .inl ⟨inside,opens,rfl,fun comment member both => within comment member both.1 both.2⟩

/-- No stray mark reaches over the beginning of the last documentation comment before a declaration,
and none opens a block of its own behind it. -/
structure Undisturbed (content : List Char) (preamble declaration : Nat) : Prop where
  uncovered : ∀ start stop, Stray content start stop →
    ∀ comment ∈ (documentationIn content preamble declaration).getLast?,
      comment.1 ≤ start ∨ stop ≤ comment.1
  unread : ∀ start stop, Stray content start stop →
    InLiteral content start ∨ start < preamble ∨ declaration < stop ∨
      ∃ comment ∈ (documentationIn content preamble declaration).getLast?, start < comment.1

theorem mem_documentationIn {comment : Nat × List Char} :
    comment ∈ documentationIn content preamble declaration ↔
      comment ∈ documentation content ∧ preamble ≤ comment.1 ∧
        comment.1 + comment.2.length ≤ declaration := by
  rw [documentationIn,List.mem_filter,Bool.and_eq_true,decide_eq_true_eq,decide_eq_true_eq]

/-- A documentation comment over whose beginning no stray mark reaches is found as a whole. -/
theorem block_of_documentation {place : Nat} {text : List Char} (ends : declaration < content.length)
    (uncovered : ∀ start stop, Stray content start stop → place ≤ start ∨ stop ≤ place)
    (member : (place,text) ∈ documentation content) (early : place + text.length ≤ declaration) :
    ∃ inside, text = docOpening ++ (inside ++ commentClosing) ∧
      block place (content.drop place) inside ∈ javadocPattern.findAll content := by
  obtain ⟨_,⟨last,_⟩ | ⟨inside,shape,opens⟩⟩ := closes_of_documentation member
  · omega
  · refine ⟨inside,shape,?_⟩
    have length := opens.length_le
    obtain ⟨found,among,low,high⟩ := @mem_findFrom_of_matchAt javadocPattern content none 0 place
      (by omega) fun before =>
        ⟨_,by rw [Nat.zero_add]; exact matchAt_of_opens opens before place,by simp [block]⟩
    rw [Nat.zero_add] at low high
    obtain ⟨body,again,same⟩ := block_of_mem_findAll among
    rcases Nat.eq_or_lt_of_le low with here | before
    · rw [here] at again same
      rw [opens.unique again,← same]
      exact among
    · exfalso
      have stop : found.stop = found.start + (body.length + 5) := congrArg Match.stop same
      rcases stray_or_documentation again with stray | ⟨other,inOther,after,reached⟩
      · rcases uncovered _ _ stray with apart | apart
        · omega
        · omega
      · have long : place < place + text.length := by
          rw [shape,length_documentation]
          omega
        have overlaps : other = (place,text) := by
          refine eq_of_overlap (pairwise_documentation content) inOther member ?_ ?_
          · exact (after.trans_lt before).trans long
          · dsimp only
            omega
        rw [overlaps] at after
        exact Nat.not_lt_of_le after before

/-- A declaration does not start within a comment. -/
theorem le_of_comment {place stop : Nat} {text : List Char}
    (member : (place,text) ∈ documentation content)
    (before : declarationStart (maskLiterals (maskComments content)) stop < place + text.length) :
    declarationStart (maskLiterals (maskComments content)) stop ≤ place := by
  by_contra inside
  rcases boundary_of_declarationStart (maskLiterals (maskComments content)) stop with
    zero | ⟨c,shown,boundary⟩
  · omega
  · rcases blank_of_comment (mem_documentation.mp member).1 (by omega) (by omega) (.inr shown) with
      rfl | rfl
    · cases boundary
    · cases boundary

/-- A block before the declaration ends where one of its documentation comments does, or begins with
a stray mark. -/
theorem stray_or_documentationIn {stop : Nat} {found : Match}
    (starts : declarationStart (maskLiterals (maskComments content)) stop = preamble)
    (member : found ∈ javadocs content (maskComments content)) (late : preamble ≤ found.start)
    (early : found.stop ≤ declaration) :
    (Stray content found.start found.stop ∧ ¬InLiteral content found.start) ∨
      ∃ comment ∈ documentationIn content preamble declaration,
        comment.1 ≤ found.start ∧ found.stop = comment.1 + comment.2.length := by
  obtain ⟨among,shown⟩ := List.mem_filter.mp member
  obtain ⟨inside,opens,same⟩ := block_of_mem_findAll among
  have stop : found.stop = found.start + (inside.length + 5) := congrArg Match.stop same
  rw [stop] at early ⊢
  rcases stray_or_documentation opens with stray | ⟨comment,inComment,after,reached⟩
  · refine .inl ⟨stray,fun literal => ?_⟩
    obtain ⟨rest,slash⟩ := opens.getElem? 0
    have kept := kept_of_inLiteral literal
    rw [← Nat.add_zero found.start,slash] at kept
    rw [← Nat.add_zero found.start,kept] at shown
    simp [docOpening] at shown
  · right
    have first : preamble ≤ comment.1 := by
      rw [← starts] at late ⊢
      exact le_of_comment inComment (by omega)
    exact ⟨comment,mem_documentationIn.mpr ⟨inComment,first,reached ▸ early⟩,after,reached⟩

/-- The blocks between two places. -/
def blocksIn (blocks : List Match) (preamble declaration : Nat) : List Match :=
  blocks.filter fun block => preamble ≤ block.start && block.stop ≤ declaration

theorem mem_blocksIn {blocks : List Match} {found : Match} :
    found ∈ blocksIn blocks preamble declaration ↔
      found ∈ blocks ∧ preamble ≤ found.start ∧ found.stop ≤ declaration := by
  rw [blocksIn,List.mem_filter,Bool.and_eq_true,decide_eq_true_eq,decide_eq_true_eq]

/-- The last of the blocks before the declaration is attached, if it ends within reach. -/
theorem attachedJavadoc_eq {blocks : List Match}
    (ordered : blocks.Pairwise fun first second => first.stop ≤ second.start)
    (proper : ∀ block ∈ blocks, block.start < block.stop) :
    attachedJavadoc blocks preamble declaration =
      match (blocksIn blocks preamble declaration).getLast? with
      | some block =>
        if declaration < block.stop + reach then String.ofList (Text.trim (block.captured 1)) else ""
      | none => "" := by
  have rising : blocks.Pairwise fun first second => first.stop ≤ second.stop :=
    ordered.imp_of_mem fun _ inSecond apart => apart.trans (proper _ inSecond).le
  have before : ((blocks.filter fun block => preamble ≤ block.start).takeWhile fun block =>
      block.stop ≤ declaration) = blocksIn blocks preamble declaration := by
    rw [takeWhile_eq_filter,List.filter_filter,blocksIn]
    · simp only [Bool.and_comm]
    · refine (rising.filter _).imp ?_
      intro first second rises early
      rw [decide_eq_true_eq] at early ⊢
      exact rises.trans early
  have reaching : ((blocksIn blocks preamble declaration).filter fun block =>
      declaration - reach < block.stop).getLast? =
        (blocksIn blocks preamble declaration).getLast?.filter fun block =>
          declaration - reach < block.stop := by
    apply getLast?_filter
    refine (rising.filter _).imp ?_
    intro first second rises late
    rw [decide_eq_true_eq] at late ⊢
    exact Nat.lt_of_lt_of_le late rises
  rw [attachedJavadoc,before,reaching]
  cases last : (blocksIn blocks preamble declaration).getLast? with
  | none => rfl
  | some block =>
    have positive := proper block (mem_blocksIn.mp (List.mem_of_getLast? last)).1
    have within : declaration - reach < block.stop ↔ declaration < block.stop + reach := by omega
    by_cases near : declaration < block.stop + reach
    · simp only [Option.filter,decide_eq_true_eq,within,if_pos near]
    · simp only [Option.filter,decide_eq_true_eq,within,if_neg near]

theorem ordered_javadocs (content : List Char) :
    (javadocs content (maskComments content)).Pairwise fun first second =>
      first.stop ≤ second.start :=
  (pairwise_findAll content).filter _

theorem lt_of_mem_javadocs {found : Match} (member : found ∈ javadocs content (maskComments content)) :
    found.start < found.stop := by
  obtain ⟨inside,_,same⟩ := block_of_mem_findAll (List.mem_of_mem_filter member)
  have stop : found.stop = found.start + (inside.length + 5) := congrArg Match.stop same
  omega

/-- The last documentation comment before an undisturbed declaration is a block. -/
theorem mem_javadocs {comment : Nat × List Char} (ends : declaration < content.length)
    (calm : Undisturbed content preamble declaration)
    (last : (documentationIn content preamble declaration).getLast? = some comment) :
    ∃ inside, comment.2 = docOpening ++ (inside ++ commentClosing) ∧
      block comment.1 (content.drop comment.1) inside ∈
        blocksIn (javadocs content (maskComments content)) preamble declaration := by
  obtain ⟨inComment,first,before⟩ := mem_documentationIn.mp (List.mem_of_getLast? last)
  obtain ⟨inside,shape,among⟩ := block_of_documentation ends
    (fun start stop stray => calm.uncovered start stop stray comment last) inComment before
  have long : comment.2.length = inside.length + 5 := by rw [shape,length_documentation]
  rw [long] at before
  refine ⟨inside,shape,mem_blocksIn.mpr ⟨List.mem_filter.mpr ⟨among,?_⟩,first,before⟩⟩
  rw [bne_iff_ne]
  intro slash
  rcases blank_of_comment (mem_documentation.mp inComment).1 (Nat.le_refl _) (by omega) (.inl slash)
    with blank | blank
  · cases blank
  · cases blank

/-- Where no documentation comment stands before an undisturbed declaration, there is no block. -/
theorem blocks_eq_nil {stop : Nat}
    (starts : declarationStart (maskLiterals (maskComments content)) stop = preamble)
    (calm : Undisturbed content preamble declaration)
    (undocumented : (documentationIn content preamble declaration).getLast? = none) :
    blocksIn (javadocs content (maskComments content)) preamble declaration = [] := by
  rw [List.eq_nil_iff_forall_not_mem]
  intro found listed
  obtain ⟨member,late,early⟩ := mem_blocksIn.mp listed
  rcases stray_or_documentationIn starts member late early with ⟨stray,read⟩ | ⟨comment,listed,_⟩
  · rcases calm.unread _ _ stray with literal | before | behind | ⟨comment,last,_⟩
    · exact read literal
    · omega
    · omega
    · rw [undocumented] at last
      cases last
  · rw [List.getLast?_eq_none_iff.mp undocumented] at listed
    cases listed

/-- No block follows the last documentation comment before an undisturbed declaration. -/
theorem getLast?_blocks {stop : Nat} {comment : Nat × List Char}
    (starts : declarationStart (maskLiterals (maskComments content)) stop = preamble)
    (ends : declaration < content.length) (calm : Undisturbed content preamble declaration)
    (last : (documentationIn content preamble declaration).getLast? = some comment) :
    ∃ inside, comment.2 = docOpening ++ (inside ++ commentClosing) ∧
      (blocksIn (javadocs content (maskComments content)) preamble declaration).getLast? =
        some (block comment.1 (content.drop comment.1) inside) := by
  obtain ⟨inside,shape,listed⟩ := mem_javadocs ends calm last
  refine ⟨inside,shape,?_⟩
  cases latest : (blocksIn (javadocs content (maskComments content)) preamble declaration).getLast? with
  | none =>
    rw [List.getLast?_eq_none_iff.mp latest] at listed
    cases listed
  | some found =>
    rcases eq_or_le_getLast ((ordered_javadocs content).filter _) latest listed with same | behind
    · rw [same]
    · exfalso
      have length : comment.2.length = inside.length + 5 := by rw [shape,length_documentation]
      change comment.1 + (inside.length + 5) ≤ found.start at behind
      obtain ⟨member,late,early⟩ := mem_blocksIn.mp (List.mem_of_getLast? latest)
      have proper := lt_of_mem_javadocs member
      rcases stray_or_documentationIn starts member late early with
        ⟨stray,read⟩ | ⟨other,inOther,after,reached⟩
      · rcases calm.unread _ _ stray with literal | before | behind | ⟨also,again,earlier⟩
        · exact read literal
        · omega
        · omega
        · cases last.symm.trans again
          omega
      · rcases eq_or_le_getLast ((pairwise_documentation content).filter _) last inOther with
          rfl | earlier
        · omega
        · omega

theorem attachedJavadoc_documented {stop : Nat}
    (starts : declarationStart (maskLiterals (maskComments content)) stop = preamble)
    (ends : declaration < content.length) (calm : Undisturbed content preamble declaration) :
    attachedJavadoc (javadocs content (maskComments content)) preamble declaration =
      documented content preamble declaration := by
  rw [attachedJavadoc_eq (ordered_javadocs content) fun _ => lt_of_mem_javadocs,documented]
  cases last : (documentationIn content preamble declaration).getLast? with
  | none => rw [blocks_eq_nil starts calm last]; rfl
  | some comment =>
    obtain ⟨inside,shape,latest⟩ := getLast?_blocks starts ends calm last
    have reached : (block comment.1 (content.drop comment.1) inside).stop =
        comment.1 + comment.2.length := by
      rw [shape,length_documentation,block]
    have captured : (block comment.1 (content.drop comment.1) inside).captured 1 =
        interior comment.2 := by
      rw [shape,interior_documentation]
      rfl
    rw [latest]
    dsimp only
    rw [reached,captured]

end Attached

section Methods
variable {content : List Char} {found : Match} {method : Method}

/-- Where the declaration of a match begins, behind its leading blanks. -/
def declarationOf (found : Match) : Nat :=
  found.start + (found.text.takeWhile Text.isBlank).length

def preambleOf (content : List Char) (found : Match) : Nat :=
  declarationStart (maskLiterals (maskComments content)) (declarationOf found)

theorem declarationOf_lt (member : found ∈ pattern.findAll (maskLiterals (maskComments content))) :
    declarationOf found < content.length := by
  obtain ⟨before,matched⟩ := matchAt_of_mem_findAll member
  obtain ⟨front,more,shape,_⟩ := head_of_match matched
  obtain ⟨_,_,rest,whole⟩ := extent_of_matchAt matched
  have length := (shows_masks content).length_eq
  have split := congrArg List.length whole
  rw [List.length_drop,List.length_append,← length] at split
  have short : (found.text.takeWhile Text.isBlank).length ≤ found.text.length :=
    (List.takeWhile_sublist _).length_le
  have remains : 0 < content.length - found.start := by
    rw [length,← List.length_drop,shape,List.length_append,List.length_cons]
    omega
  -- The parenthesis is no blank, so the blanks do not reach the end.
  rcases Nat.lt_or_ge (found.text.takeWhile Text.isBlank).length (content.length - found.start) with
    less | all
  · rw [declarationOf]
    omega
  · exfalso
    have empty : rest = [] := List.length_eq_zero_iff.mp (by omega)
    have full : found.text.takeWhile Text.isBlank = found.text :=
      (List.takeWhile_prefix _).eq_of_length (by omega)
    rw [empty,List.append_nil,shape] at whole
    have inside : '(' ∈ found.text.takeWhile Text.isBlank := by
      rw [full,← whole]
      simp
    exact absurd (List.mem_takeWhile_imp inside) (by decide)

theorem javadoc_of_made
    (made : ofMatch (javadocs content (maskComments content)) (maskComments content)
      (maskLiterals (maskComments content)) found = some method) :
    method.javadoc = attachedJavadoc (javadocs content (maskComments content))
      (preambleOf content found) (declarationOf found) := by
  obtain ⟨name,_,kind⟩ := Option.bind_eq_some_iff.mp made
  dsimp only at kind
  split at kind
  · cases kind
  · cases kind
    rfl

/-- What is attached, if anything, stood in a block that begins in a comment. -/
theorem attachedJavadoc_cases (content : List Char) (preamble declaration : Nat) :
    attachedJavadoc (javadocs content (maskComments content)) preamble declaration = "" ∨
      ∃ start inside, Opens (content.drop start) inside ∧ InComment content start ∧
        preamble ≤ start ∧ start + (inside.length + 5) ≤ declaration ∧
        declaration < start + (inside.length + 5) + reach ∧
        attachedJavadoc (javadocs content (maskComments content)) preamble declaration =
          String.ofList (Text.trim inside) := by
  rw [attachedJavadoc_eq (ordered_javadocs content) fun _ => lt_of_mem_javadocs]
  split
  · next found last =>
    split
    · next near =>
      obtain ⟨among,late,early⟩ := mem_blocksIn.mp (List.mem_of_getLast? last)
      obtain ⟨one,shown⟩ := List.mem_filter.mp among
      obtain ⟨inside,opens,same⟩ := block_of_mem_findAll one
      have stop : found.stop = found.start + (inside.length + 5) := congrArg Match.stop same
      have captured : found.captured 1 = inside := by
        rw [same]
        rfl
      have length := opens.length_le
      obtain ⟨rest,slash⟩ := opens.getElem? 0
      have changed : (maskComments content)[found.start]? ≠ content[found.start]? := by
        rw [bne_iff_ne] at shown
        rw [← Nat.add_zero found.start,slash]
        exact shown
      right
      refine ⟨found.start,inside,opens,inComment_of_ne (by omega) changed,late,?_,?_,?_⟩
      · rw [← stop]
        exact early
      · rw [← stop]
        exact near
      · rw [captured]
    · exact .inl rfl
  · exact .inl rfl

/-- What is attached to a method stands before its declaration in a block that begins in a comment;
where no stray mark disturbs, it is what the last documentation comment between the start of the
preamble and the declaration says, if that ends within reach. -/
theorem javadoc_documented
    (member : found ∈ pattern.findAll (maskLiterals (maskComments content)))
    (made : ofMatch (javadocs content (maskComments content)) (maskComments content)
      (maskLiterals (maskComments content)) found = some method) :
    method ∈ readAll content ∧
      (method.javadoc = "" ∨ ∃ start inside, Opens (content.drop start) inside ∧
        InComment content start ∧ preambleOf content found ≤ start ∧
        start + (inside.length + 5) ≤ declarationOf found ∧
        declarationOf found < start + (inside.length + 5) + reach ∧
        method.javadoc = String.ofList (Text.trim inside)) ∧
      (Undisturbed content (preambleOf content found) (declarationOf found) →
        method.javadoc = documented content (preambleOf content found) (declarationOf found)) := by
  rw [javadoc_of_made made]
  exact ⟨List.mem_filterMap.mpr ⟨found,member,made⟩,attachedJavadoc_cases _ _ _,
    attachedJavadoc_documented rfl (declarationOf_lt member)⟩

/-- A unit with a path that looks like the beginning of a documentation comment. -/
def pathUnit : List Char :=
  "class A \x7b\n/** Lists. */ @Get(\"/**\")\n  int a() \x7b\x7d\n".toList ++
    "/** Clears. */\n  int b() \x7b\x7d\n\x7d".toList

theorem documentation_pathUnit : documentation pathUnit =
    [(10,"/** Lists. */".toList),(49,"/** Clears. */".toList)] := by decide +kernel

/-- The path stands behind the documentation of the first method and does not disturb it. -/
theorem javadoc_documented_path :
    ∃ found ∈ pattern.findAll (maskLiterals (maskComments pathUnit)), ∃ method,
      ofMatch (javadocs pathUnit (maskComments pathUnit)) (maskComments pathUnit)
        (maskLiterals (maskComments pathUnit)) found = some method ∧
      Undisturbed pathUnit (preambleOf pathUnit found) (declarationOf found) ∧
      method.name = "a" ∧ method.javadoc = "Lists." := by
  obtain ⟨found,member,named,preamble,declaration⟩ :
      ∃ found ∈ pattern.findAll (maskLiterals (maskComments pathUnit)),
        (ofMatch (javadocs pathUnit (maskComments pathUnit)) (maskComments pathUnit)
          (maskLiterals (maskComments pathUnit)) found).map Method.name = some "a" ∧
        preambleOf pathUnit found = 9 ∧ declarationOf found = 38 := by
    decide +kernel
  obtain ⟨method,made,name⟩ := Option.map_eq_some_iff.mp named
  have comments : documentationIn pathUnit 9 38 = [(10,"/** Lists. */".toList)] := by
    rw [documentationIn,documentation_pathUnit]
    decide
  have marks : ∀ start < pathUnit.length, docOpening.isPrefixOf (pathUnit.drop start) = true →
      start = 10 ∨ start = 30 ∨ start = 49 := by decide +kernel
  have literal : InLiteral pathUnit 30 :=
    ⟨(29,.literal "\"/**\"".toList),by decide +kernel,rfl,by decide,by decide⟩
  have stray (start stop : Nat) (mark : Stray pathUnit start stop) : start = 30 := by
    obtain ⟨inside,opens,_,apart⟩ := mark
    rw [documentation_pathUnit,List.forall_mem_cons,List.forall_mem_singleton] at apart
    have length := opens.length_le
    obtain ⟨rest,shape⟩ := opens.begins
    rcases marks start (by omega) (by rw [List.isPrefixOf_iff_prefix,shape]; simp) with
      rfl | same | rfl
    · exact absurd (by decide) apart.1
    · exact same
    · exact absurd (by decide) apart.2
  have calm : Undisturbed pathUnit 9 38 := by
    constructor
    · intro start stop mark comment last
      rw [comments] at last
      cases last
      rw [stray start stop mark]
      exact .inl (by decide)
    · intro start stop mark
      rw [stray start stop mark]
      exact .inl literal
  have told : documented pathUnit 9 38 = "Lists." := by
    rw [documented,comments]
    decide
  have attached := (javadoc_documented member made).2.2
  rw [preamble,declaration] at attached
  exact ⟨found,member,method,made,by rw [preamble,declaration]; exact calm,name,
    (attached calm).trans told⟩

/-- The path reaches over the documentation of the second method, which is lost. -/
theorem javadoc_lost :
    ∃ found ∈ pattern.findAll (maskLiterals (maskComments pathUnit)), ∃ method ∈ readAll pathUnit,
      ofMatch (javadocs pathUnit (maskComments pathUnit)) (maskComments pathUnit)
        (maskLiterals (maskComments pathUnit)) found = some method ∧
      documentationIn pathUnit (preambleOf pathUnit found) (declarationOf found) =
        [(49,"/** Clears. */".toList)] ∧
      declarationOf found < 49 + "/** Clears. */".toList.length + reach ∧
      String.ofList (Text.trim (interior "/** Clears. */".toList)) = "Clears." ∧
      method.name = "b" ∧ method.javadoc = "" := by
  obtain ⟨found,member,named,preamble,declaration⟩ :
      ∃ found ∈ pattern.findAll (maskLiterals (maskComments pathUnit)),
        (ofMatch (javadocs pathUnit (maskComments pathUnit)) (maskComments pathUnit)
          (maskLiterals (maskComments pathUnit)) found).map (fun method =>
            (method.name,method.javadoc)) = some ("b","") ∧
        preambleOf pathUnit found = 48 ∧ declarationOf found = 66 := by
    decide +kernel
  obtain ⟨method,made,pair⟩ := Option.map_eq_some_iff.mp named
  refine ⟨found,member,method,List.mem_filterMap.mpr ⟨found,member,made⟩,made,?_,?_,by decide,
    congrArg Prod.fst pair,congrArg Prod.snd pair⟩
  · rw [preamble,declaration,documentationIn,documentation_pathUnit]
    decide
  · rw [declaration]
    decide

end Methods

end Method

end JavaAtlas
