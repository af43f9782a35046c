import JavaAtlas.Proofs.Spacing

/-! Trimmed texts. Trimming takes the blanks at both ends and nothing else, so that the words of a
text stay, and what is left begins and ends with no blank. -/
namespace JavaAtlas.Text
variable {text lead back : List Char} {c : Char}

theorem exists_padding (text : List Char) : ∃ lead back, text = lead ++ (trim text ++ back) ∧
    (∀ c ∈ lead, isBlank c = true) ∧ ∀ c ∈ back, isBlank c = true := by
  refine ⟨text.takeWhile isBlank,((text.dropWhile isBlank).reverse.takeWhile isBlank).reverse,?_,
    fun c => List.mem_takeWhile_imp,fun c member => List.mem_takeWhile_imp (List.mem_reverse.mp member)⟩
  rw [trim,trimWhile,dropEndWhile,← List.reverse_append,List.takeWhile_append_dropWhile,
    List.reverse_reverse,List.takeWhile_append_dropWhile]

theorem getLast?_trim (last : (trim text).getLast? = some c) : isBlank c = false := by
  rw [trim,trimWhile,dropEndWhile,List.getLast?_reverse] at last
  exact head?_dropWhile last

theorem head?_trim (head : (trim text).head? = some c) : isBlank c = false := by
  have begins : trim text <+: text.dropWhile isBlank := by
    rw [trim,trimWhile,dropEndWhile,← List.reverse_suffix,List.reverse_reverse]
    exact List.dropWhile_suffix _
  obtain ⟨others,shape⟩ := List.head?_eq_some_iff.mp head
  obtain ⟨more,whole⟩ := begins
  rw [shape] at whole
  exact head?_dropWhile (congrArg List.head? whole.symm)

theorem trim_eq_nil_iff : trim text = [] ↔ ∀ c ∈ text, isBlank c = true := by
  constructor
  · intro empty
    obtain ⟨lead,back,whole,left,right⟩ := exists_padding text
    rw [whole,empty,List.nil_append,List.forall_mem_append]
    exact ⟨left,right⟩
  · exact trim_blank

/-- Blanks at the ends make no difference. -/
theorem trim_padding (left : ∀ c ∈ lead, isBlank c = true) (right : ∀ c ∈ back, isBlank c = true)
    (text : List Char) : trim (lead ++ (text ++ back)) = trim text := by
  by_cases empty : trim text = []
  · have blank := trim_eq_nil_iff.mp empty
    rw [empty,trim_eq_nil_iff,List.forall_mem_append,List.forall_mem_append]
    exact ⟨left,blank,right⟩
  · obtain ⟨before,behind,whole,first,last⟩ := exists_padding text
    have padded : lead ++ (text ++ back) = (lead ++ before) ++ (trim text ++ (behind ++ back)) := by
      conv_lhs => rw [whole]
      simp only [List.append_assoc]
    rw [padded]
    exact trim_between (List.forall_mem_append.mpr ⟨left,first⟩)
      (List.forall_mem_append.mpr ⟨last,right⟩) empty (fun _ => head?_trim) fun _ => getLast?_trim

theorem trim_dropWhile (text : List Char) : trim (text.dropWhile isBlank) = trim text := by
  have padded := trim_padding (fun c => @List.mem_takeWhile_imp _ isBlank text c)
    (List.forall_mem_nil _) (text.dropWhile isBlank)
  rwa [List.append_nil,List.takeWhile_append_dropWhile,eq_comm] at padded

theorem trim_dropEndWhile (text : List Char) : trim (dropEndWhile isBlank text) = trim text := by
  have blank : ∀ c ∈ (text.reverse.takeWhile isBlank).reverse, isBlank c = true :=
    fun c member => List.mem_takeWhile_imp (List.mem_reverse.mp member)
  have padded := trim_padding (List.forall_mem_nil _) blank (dropEndWhile isBlank text)
  rwa [dropEndWhile,List.nil_append,← List.reverse_append,List.takeWhile_append_dropWhile,
    List.reverse_reverse,eq_comm] at padded

theorem words_lead (left : ∀ c ∈ lead, isBlank c = true) (text : List Char) :
    words (lead ++ text) = words text := by
  induction lead with
  | nil => rfl
  | cons c lead ih =>
    rw [List.forall_mem_cons] at left
    rw [List.cons_append,words_blank left.1,ih left.2]

theorem words_back (right : ∀ c ∈ back, isBlank c = true) (text : List Char) :
    words (text ++ back) = words text := by
  cases back with
  | nil => rw [List.append_nil]
  | cons c back =>
    rw [List.forall_mem_cons] at right
    have alone := words_lead right.2 []
    rw [List.append_nil] at alone
    rw [words_append right.1,alone]
    exact List.append_nil _

theorem words_trim (text : List Char) : words (trim text) = words text := by
  obtain ⟨lead,back,whole,left,right⟩ := exists_padding text
  conv_rhs => rw [whole,words_lead left,words_back right]

theorem words_eq_nil_iff : words text = [] ↔ ∀ c ∈ text, isBlank c = true := by
  constructor
  · intro empty
    rw [← trim_eq_nil_iff]
    rcases List.eq_nil_or_concat' (trim text) with empty | ⟨front,c,shape⟩
    · exact empty
    · have solid := @getLast?_trim text c (by rw [shape,List.getLast?_append_cons]; rfl)
      have worded := words_ne_nil solid front
      rw [← shape,words_trim] at worded
      exact absurd empty worded
  · intro blank
    have whole := words_lead blank []
    rwa [List.append_nil] at whole

/-- The pieces of a text stand in it, and the first of them at its beginning. -/
theorem splitOnP_within {kind : Char → Bool} (text : List Char) :
    (∀ piece ∈ text.splitOnP kind, piece <:+: text) ∧
      ∀ piece ∈ (text.splitOnP kind).head?, piece <+: text := by
  induction text with
  | nil => simp
  | cons c text ih =>
    obtain ⟨first,others,shape⟩ := List.exists_cons_of_ne_nil (List.splitOnP_ne_nil kind text)
    have longer {piece : List Char} (inside : piece <:+: text) : piece <:+: c :: text :=
      inside.trans (List.suffix_cons c text).isInfix
    rw [shape,List.forall_mem_cons] at ih
    obtain ⟨⟨inside,elsewhere⟩,begins⟩ := ih
    rw [List.splitOnP_cons_eq_if_modifyHead,shape]
    split
    · rw [List.forall_mem_cons,List.forall_mem_cons]
      refine ⟨⟨List.nil_infix,longer inside,fun piece member => longer (elsewhere piece member)⟩,?_⟩
      rintro _ ⟨⟩
      exact List.nil_prefix
    · have starts : c :: first <+: c :: text := (List.prefix_cons_inj c).mpr (begins first rfl)
      rw [List.modifyHead_cons,List.forall_mem_cons]
      refine ⟨⟨starts.isInfix,fun piece member => longer (elsewhere piece member)⟩,?_⟩
      rintro _ ⟨⟩
      exact starts

theorem infix_of_mem_words {word : List Char} (member : word ∈ words text) : word <:+: text :=
  (splitOnP_within text).1 word (List.mem_of_mem_filter member)

theorem occursIn_iff {part : List Char} : occursIn part text = true ↔ part <:+: text := by
  constructor
  · intro found
    induction text with
    | nil => exact List.isEmpty_iff.mp found ▸ List.nil_infix
    | cons c text ih =>
      rw [occursIn,Bool.or_eq_true] at found
      rcases found with here | later
      · exact (List.isPrefixOf_iff_prefix.mp here).isInfix
      · exact (ih later).trans (List.suffix_cons c text).isInfix
  · rintro ⟨front,rest,rfl⟩
    rw [List.append_assoc]
    exact occursIn_append part rest front

end JavaAtlas.Text
