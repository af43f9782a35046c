import JavaAtlas.Text.Words
import Mathlib.Data.List.Basic
import Mathlib.Data.List.TakeWhile

/-! Words and the places of a text. What makes a word never separates two, inside ASCII and
outside of it. -/
namespace JavaAtlas.Text

/-- What holds of all characters of a text is decided by going through the text. Characters are
finitely many, and the general instance for such types would go through all of them. -/
instance decidableForallMem (holds : Char → Prop) [DecidablePred holds] (text : List Char) :
    Decidable (∀ c ∈ text, holds c) := List.decidableBAll holds text

theorem slice_append (front middle rest : List Char) :
    slice (front ++ (middle ++ rest)) front.length (front.length + middle.length) = middle := by
  simp [slice,List.take_append]

section Slices
variable {one two text : List Char} {start middle stop i : Nat} {c : Char}

theorem slice_part {front part rest : List Char} (whole : text = front ++ (part ++ rest))
    (first : front.length = start) (last : start + part.length = stop) :
    slice text start stop = part := by
  rw [whole,← last,← first,slice_append]

theorem getElem?_slice (text : List Char) (start stop i : Nat) :
    (slice text start stop)[i]? = if start + i < stop then text[start + i]? else none := by
  rw [slice,List.getElem?_drop,List.getElem?_take]

theorem mem_slice (low : start ≤ i) (high : i < stop) (here : text[i]? = some c) :
    c ∈ slice text start stop := by
  obtain ⟨i,rfl⟩ := Nat.exists_eq_add_of_le low
  apply List.mem_of_getElem?
  rw [getElem?_slice,if_pos high,here]

theorem slice_congr (same : ∀ i, start ≤ i → i < stop → one[i]? = two[i]?) :
    slice one start stop = slice two start stop := by
  apply List.ext_getElem?
  intro i
  rw [getElem?_slice,getElem?_slice]
  split
  · next inside => exact same _ (Nat.le_add_right start i) inside
  · rfl

/-- A part of a slice is a slice, wherever the slice itself goes on. -/
theorem slice_within {n : Nat} {front part rest tail : List Char}
    (seen : slice text start n ++ tail = front ++ (part ++ rest)) (short : tail.length ≤ rest.length) :
    slice text (start + front.length) (start + (front.length + part.length)) = part := by
  have length := congrArg List.length seen
  have bound : (slice text start n).length ≤ n - start := by
    rw [slice,List.length_drop,List.length_take]
    omega
  simp only [List.length_append] at length
  refine Eq.trans ?_ (slice_part seen rfl rfl)
  apply List.ext_getElem?
  intro j
  rw [getElem?_slice,getElem?_slice]
  by_cases inside : front.length + j < front.length + part.length
  · have before : front.length + j < (slice text start n).length := by omega
    rw [if_pos inside,if_pos (by omega),List.getElem?_append_left before,getElem?_slice,
      if_pos (by omega),Nat.add_assoc]
  · rw [if_neg inside,if_neg (by omega)]

theorem slice_join (low : start ≤ middle) (high : middle ≤ stop) :
    slice text start stop = slice text start middle ++ slice text middle stop := by
  have length : stop - start = (middle - start) + (stop - middle) := by omega
  rw [slice,slice,slice,List.drop_take,List.drop_take,List.drop_take,length,List.take_add,
    List.drop_drop,Nat.add_sub_of_le low]

theorem slice_single (here : text[i]? = some c) : slice text i (i + 1) = [c] := by
  rw [slice,List.take_add_one,here]
  exact List.drop_left' (List.length_take_of_le (Nat.le_of_lt (List.getElem?_eq_some_iff.mp here).1))

theorem slice_concat (low : start ≤ i) (here : text[i]? = some c) :
    slice text start (i + 1) = slice text start i ++ [c] := by
  rw [slice_join low (Nat.le_succ i),slice_single here]

end Slices

/-- The blanks outside ASCII. -/
def wideBlanks : List Nat :=
  [0x85,0xA0,0x1680] ++ List.range' 0x2000 11 ++ [0x2028,0x2029,0x202F,0x205F,0x3000]

theorem mem_wideBlanks {c : Char} (blank : isBlank c = true) (wide : ¬ c.toNat < 128) :
    c.toNat ∈ wideBlanks := by
  simp only [isBlank,Bool.or_eq_true,Bool.and_eq_true,decide_eq_true_eq,beq_iff_eq] at blank
  simp only [wideBlanks,List.mem_append,List.mem_cons,List.mem_range'_1,List.not_mem_nil]
  omega

theorem isBlank_of_isWord {c : Char} (word : isWord c = true) : isBlank c = false := by
  by_cases ascii : c.toNat < 128
  · have apart : ∀ n < 128, isWord (Char.ofNat n) = true → isBlank (Char.ofNat n) = false := by
      decide
    have here := apart c.toNat ascii
    rw [Char.ofNat_toNat] at here
    exact here word
  · have apart : ∀ n ∈ wideBlanks, letterOrNumber.contains n = false := by decide +kernel
    rw [isWord,if_neg ascii] at word
    rw [Bool.eq_false_iff]
    intro blank
    rw [apart _ (mem_wideBlanks blank ascii)] at word
    cases word

theorem words_append {c : Char} (blank : isBlank c = true) (front rest : List Char) :
    words (front ++ c :: rest) = words front ++ words rest := by
  rw [words,List.splitOnP_append_cons front rest blank,List.filter_append,words,words]

theorem words_single {word : List Char} (nonempty : word ≠ [])
    (solid : ∀ c ∈ word, isBlank c = false) : words word = [word] := by
  rw [words,List.splitOnP_eq_singleton solid]
  simp [nonempty]

theorem words_blank {c : Char} (blank : isBlank c = true) (rest : List Char) :
    words (c :: rest) = words rest := by
  rw [← List.nil_append (c :: rest),words_append blank]
  simp [words]

/-- What is of a kind is taken up to the first that is not. -/
theorem takeWhile_stop {α : Type} {kind : α → Bool} {front : List α} {a : α}
    (all : ∀ a ∈ front, kind a = true) (leaves : kind a = false) (rest : List α) :
    (front ++ a :: rest).takeWhile kind = front := by
  rw [List.takeWhile_append_of_pos all,List.takeWhile_cons_of_neg (by simp [leaves]),List.append_nil]

theorem dropWhile_stop {α : Type} {kind : α → Bool} {front : List α} {a : α}
    (all : ∀ a ∈ front, kind a = true) (leaves : kind a = false) (rest : List α) :
    (front ++ a :: rest).dropWhile kind = a :: rest := by
  rw [List.dropWhile_append_of_pos all,List.dropWhile_cons_of_neg (by simp [leaves])]

theorem dropWhile_of_forall {p : Char → Bool} {text : List Char} (refused : ∀ c ∈ text, p c = false) :
    text.dropWhile p = text := by
  cases text with
  | nil => rfl
  | cons c rest => rw [List.dropWhile_cons_of_neg (by simp [refused c])]

theorem trimWhile_of_forall {p : Char → Bool} {text : List Char} (refused : ∀ c ∈ text, p c = false) :
    trimWhile p text = text := by
  rw [trimWhile,dropEndWhile,dropWhile_of_forall refused,dropWhile_of_forall (by simpa using refused),
    List.reverse_reverse]

/-- Where a text leaves a kind of characters is settled by the text. -/
theorem leaves_once {kind : Char → Bool} {front back rest more : List Char} {c d : Char}
    (one : ∀ c ∈ front, kind c = true) (two : ∀ c ∈ back, kind c = true)
    (leaves : kind c = false) (parts : kind d = false)
    (same : front ++ c :: rest = back ++ d :: more) : front = back ∧ c = d := by
  have taken := congrArg (List.takeWhile kind) same
  have dropped := congrArg (List.dropWhile kind) same
  rw [dropWhile_stop one leaves,dropWhile_stop two parts] at dropped
  rw [takeWhile_stop one leaves,takeWhile_stop two parts] at taken
  exact ⟨taken,(List.cons.inj dropped).1⟩

/-- Dropping at one end stops at a character that stays. -/
theorem dropWhile_append_cons {kind : Char → Bool} {c : Char} (stays : kind c = false)
    (front rest : List Char) :
    (front ++ c :: rest).dropWhile kind = front.dropWhile kind ++ c :: rest := by
  have whole : (c :: rest).dropWhile kind = c :: rest := List.dropWhile_cons_of_neg (by simp [stays])
  rw [List.dropWhile_append,whole]
  split
  · next empty => rw [List.isEmpty_iff.mp empty]; rfl
  · rfl

theorem dropEndWhile_append_cons {kind : Char → Bool} {c : Char} (stays : kind c = false)
    (front rest : List Char) :
    dropEndWhile kind (front ++ c :: rest) = front ++ c :: dropEndWhile kind rest := by
  rw [dropEndWhile,List.reverse_append,List.reverse_cons,List.append_assoc,List.singleton_append,
    dropWhile_append_cons stays,dropEndWhile]
  simp

theorem intercalate_cons (separator first : List Char) (others : List (List Char)) :
    separator.intercalate (first :: others) =
      first ++ others.flatMap fun part => separator ++ part := by
  induction others generalizing first with
  | nil => simp
  | cons next others ih =>
    rw [List.intercalate_cons_cons,ih,List.flatMap_cons]
    simp only [List.append_assoc]

/-- What holds of the parts and of what stands between them holds of the whole, if it is kept when
texts are put together. -/
theorem holds_intercalate {holds : List Char → Prop} {separator : List Char}
    {parts : List (List Char)} (nil : holds [])
    (append : ∀ one two, holds one → holds two → holds (one ++ two)) (between : holds separator)
    (within : ∀ part ∈ parts, holds part) : holds (separator.intercalate parts) := by
  cases parts with
  | nil => exact nil
  | cons first others =>
    rw [List.forall_mem_cons] at within
    rw [intercalate_cons]
    apply append _ _ within.1
    induction others with
    | nil => exact nil
    | cons next others ih =>
      rw [List.forall_mem_cons] at within
      obtain ⟨here,next_,later⟩ := within
      exact append _ _ (append _ _ between next_) (ih ⟨here,later⟩)

theorem forall_mem_intercalate {holds : Char → Prop} {separator : List Char}
    {parts : List (List Char)} (between : ∀ c ∈ separator, holds c)
    (within : ∀ part ∈ parts, ∀ c ∈ part, holds c) :
    ∀ c ∈ separator.intercalate parts, holds c := by
  apply holds_intercalate (List.forall_mem_nil holds) ?_ between within
  intro front back one two c member
  exact (List.mem_append.mp member).elim (one c) (two c)

/-- Trimming takes the blanks at both ends of what begins and ends with none. -/
theorem trim_between {lead text back : List Char} (left : ∀ c ∈ lead, isBlank c = true)
    (right : ∀ c ∈ back, isBlank c = true) (nonempty : text ≠ [])
    (first : ∀ c, text.head? = some c → isBlank c = false)
    (last : ∀ c, text.getLast? = some c → isBlank c = false) :
    trim (lead ++ (text ++ back)) = text := by
  have front : (text ++ back).dropWhile isBlank = text ++ back := by
    obtain ⟨c,text,rfl⟩ := List.exists_cons_of_ne_nil nonempty
    exact List.dropWhile_cons_of_neg (by simp [first c rfl])
  have behind : text.reverse.dropWhile isBlank = text.reverse := by
    obtain ⟨text,c,rfl⟩ := (List.eq_nil_or_concat' text).resolve_left nonempty
    rw [List.reverse_concat]
    exact List.dropWhile_cons_of_neg (by simp [last c (by simp)])
  rw [trim,trimWhile,List.dropWhile_append_of_pos left,front,dropEndWhile,List.reverse_append,
    List.dropWhile_append_of_pos (by simpa using right),behind,List.reverse_reverse]

theorem trim_padded {lead text back : List Char} (left : ∀ c ∈ lead, isBlank c = true)
    (right : ∀ c ∈ back, isBlank c = true) (nonempty : text ≠ [])
    (solid : ∀ c ∈ text, isBlank c = false) : trim (lead ++ (text ++ back)) = text :=
  trim_between left right nonempty (fun c head => solid c (List.mem_of_mem_head? head))
    fun c ends => solid c (List.mem_of_getLast? ends)

theorem trim_blank {text : List Char} (blank : ∀ c ∈ text, isBlank c = true) : trim text = [] := by
  rw [trim,trimWhile,List.dropWhile_eq_nil_iff.mpr blank]
  rfl

theorem occursIn_append (part rest : List Char) (front : List Char) :
    occursIn part (front ++ (part ++ rest)) = true := by
  induction front with
  | nil =>
    cases part with
    | nil => cases rest <;> rfl
    | cons c part =>
      have here : (c :: part).isPrefixOf (c :: part ++ rest) = true :=
        List.isPrefixOf_iff_prefix.mpr (List.prefix_append _ _)
      rw [List.nil_append,List.cons_append] at *
      rw [occursIn,here,Bool.true_or]
  | cons d front ih => rw [List.cons_append,occursIn,ih,Bool.or_true]

theorem mem_of_occursIn {part text : List Char} (found : occursIn part text = true) :
    ∀ c ∈ part, c ∈ text := by
  induction text with
  | nil =>
    rw [occursIn,List.isEmpty_iff] at found
    rw [found]
    exact fun _ => id
  | cons d text ih =>
    rw [occursIn,Bool.or_eq_true] at found
    intro c member
    rcases found with here | later
    · exact (List.isPrefixOf_iff_prefix.mp here).subset member
    · exact List.mem_cons_of_mem d (ih later c member)

theorem afterLast_of_not_mem {mark : Char} {text : List Char} (apart : mark ∉ text) :
    afterLast mark text = text := by
  have all : ∀ c ∈ text.reverse, (c != mark) = true := by
    intro c member
    rw [bne_iff_ne]
    rintro rfl
    exact apart (List.mem_reverse.mp member)
  rw [afterLast,List.takeWhile_eq_self_iff.mpr all,List.reverse_reverse]

theorem afterLast_append (mark : Char) (front back : List Char) :
    afterLast mark (front ++ mark :: back) = afterLast mark back := by
  rw [afterLast,afterLast,List.reverse_append,List.reverse_cons,List.append_assoc,
    List.takeWhile_append]
  split
  · next whole =>
    rw [List.singleton_append,List.takeWhile_cons_of_neg (by simp),List.append_nil,
      (List.takeWhile_prefix _).eq_of_length whole]
  · rfl

theorem beforeLast_append {mark : Char} {back : List Char} (apart : mark ∉ back)
    (front : List Char) : beforeLast mark (front ++ mark :: back) = front := by
  have all : ∀ c ∈ back.reverse, (c != mark) = true := by
    intro c member
    rw [bne_iff_ne]
    rintro rfl
    exact apart (List.mem_reverse.mp member)
  rw [beforeLast,List.reverse_append,List.reverse_cons,List.append_assoc,
    List.dropWhile_append_of_pos all,List.singleton_append,List.dropWhile_cons_of_neg (by simp),
    List.drop_succ_cons,List.drop_zero,List.reverse_reverse]

end JavaAtlas.Text
