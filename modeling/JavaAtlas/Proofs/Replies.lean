import JavaAtlas.Proofs.Reading
import JavaAtlas.Proofs.Summaries
import JavaAtlas.Proofs.Trimming
import Mathlib.Data.List.Perm.Basic

/-! Replies by number. Methods are numbered from one in each request; the lines of a reply tell
summaries by these numbers, in any order and among any lines without a number, and every summary
reaches the method that stood under its number. -/
namespace JavaAtlas.Summary

section Lines
variable {front rest line : List Char} {number : Nat} {summary : String}

/-- The line of a reply that tells a summary. -/
def numberedLine (number : Nat) (summary : String) : List Char :=
  Text.ofInt number ++ '.' :: ' ' :: summary.toList

/-- An integer stands before the first point of the line. -/
def tellsNumber (line : List Char) : Bool :=
  line.contains '.' && (Text.integer? (Text.trim (line.takeWhile (· != '.')))).isSome

/-- A text that begins and ends with no blank, and is not empty. -/
def IsTrimmed (summary : String) : Prop :=
  summary ≠ "" ∧ Text.trim summary.toList = summary.toList

instance (summary : String) : Decidable (IsTrimmed summary) := inferInstanceAs (Decidable (_ ∧ _))

theorem numbered?_point (apart : '.' ∉ front) (rest : List Char) :
    numbered? (front ++ '.' :: rest) =
      (Text.integer? (Text.trim front)).map fun number => (number,Text.trim rest) := by
  have solid : Text.isBlank '.' = false := by decide
  have trimmed : Text.trim (front ++ '.' :: rest) =
      front.dropWhile Text.isBlank ++ '.' :: Text.dropEndWhile Text.isBlank rest := by
    rw [Text.trim,Text.trimWhile,Text.dropWhile_append_cons solid,Text.dropEndWhile_append_cons solid]
  have all : ∀ c ∈ front.dropWhile Text.isBlank, (c != '.') = true := by
    intro c member
    rw [bne_iff_ne]
    rintro rfl
    exact apart ((List.dropWhile_suffix _).subset member)
  have pointed : (front.dropWhile Text.isBlank ++ '.' :: Text.dropEndWhile Text.isBlank rest).contains
      '.' = true := by
    simp
  rw [numbered?,trimmed,if_pos pointed,Text.takeWhile_stop all (by decide),
    Text.dropWhile_stop all (by decide),Text.trim_dropWhile,List.drop_one,List.tail_cons,
    Text.trim_dropEndWhile]

theorem tellsNumber_point (apart : '.' ∉ front) (rest : List Char) :
    tellsNumber (front ++ '.' :: rest) = (Text.integer? (Text.trim front)).isSome := by
  have all : ∀ c ∈ front, (c != '.') = true := by
    intro c member
    rw [bne_iff_ne]
    rintro rfl
    exact apart member
  rw [tellsNumber,Text.takeWhile_stop all (by decide)]
  simp

theorem numbered?_eq_none (silent : tellsNumber line = false) : numbered? line = none := by
  by_cases pointed : '.' ∈ line
  · obtain ⟨front,rest,rfl,apart⟩ := List.eq_append_cons_of_mem pointed
    rw [tellsNumber_point apart,Option.isSome_eq_false_iff,Option.isNone_iff_eq_none] at silent
    rw [numbered?_point apart,silent,Option.map_none]
  · have undotted : (Text.trim line).contains '.' = false := by
      obtain ⟨lead,back,whole,_⟩ := Text.exists_padding line
      rw [← Bool.not_eq_true,List.contains_iff_mem]
      intro member
      rw [whole] at pointed
      exact pointed (List.mem_append_right _ (List.mem_append_left _ member))
    rw [numbered?,undotted,if_neg Bool.false_ne_true]

theorem digit_of_mem {c : Char} (member : c ∈ Text.ofInt number) : c.isDigit = true :=
  @Nat.isDigit_of_mem_toDigits 10 number c (by omega) (by omega) member

theorem integer?_of_isSome (readable : (Text.integer? (Text.ofInt number)).isSome = true) :
    Text.integer? (Text.ofInt number) = some (number : Int) := by
  rw [Text.integer?_digits,Text.natural?_digits] at readable ⊢
  split at readable
  · next few =>
    rw [if_pos few]
    rfl
  · cases readable

theorem trim_ofInt (number : Nat) : Text.trim (Text.ofInt number) = Text.ofInt number := by
  apply Text.trimWhile_of_forall
  intro c member
  have high : c.toNat ≤ 57 := (Char.isDigit_iff_toNat.mp (digit_of_mem member)).2
  have word : Text.isWord c = true := by
    rw [Text.isWord,if_pos (by omega)]
    simp [Char.isAlphanum,digit_of_mem member]
  exact Text.isBlank_of_isWord word

theorem numbered?_line (trimmed : IsTrimmed summary)
    (readable : tellsNumber (numberedLine number summary) = true) :
    numbered? (numberedLine number summary) = some ((number : Int),summary.toList) := by
  have apart : '.' ∉ Text.ofInt number := fun member => absurd (digit_of_mem member) (by decide)
  have padded := Text.trim_padding (by decide : ∀ c ∈ [' '], Text.isBlank c = true)
    (List.forall_mem_nil _) summary.toList
  rw [List.append_nil,List.singleton_append,trimmed.2] at padded
  rw [numberedLine,tellsNumber_point apart,trim_ofInt] at readable
  rw [numberedLine,numbered?_point apart,trim_ofInt,integer?_of_isSome readable,Option.map_some,padded]

end Lines

section Replies
variable {summaries : List String} {reply : String} {batch : List Method}

/-- The reply tells the summaries: its lines with a number are those of the summaries, counted from
one, in any order. -/
def Tells (summaries : List String) (reply : String) : Prop :=
  ((Text.lines reply.toList).filter tellsNumber).Perm
    ((summaries.zipIdx 1).map fun entry => numberedLine entry.2 entry.1)

instance (summaries : List String) (reply : String) : Decidable (Tells summaries reply) :=
  inferInstanceAs (Decidable (List.Perm _ _))

theorem place_line {slot : Nat} {summary : String} (trimmed : IsTrimmed summary)
    (readable : tellsNumber (numberedLine (slot + 1) summary) = true) (done : List String) :
    place done (numberedLine (slot + 1) summary) = done.set slot summary := by
  rw [place,numbered?_line trimmed readable]
  dsimp only
  rw [String.ofList_toList]
  split
  · congr
  · next outside =>
    rw [Bool.and_eq_true,decide_eq_true_eq,decide_eq_true_eq] at outside
    rw [List.set_eq_of_length_le (by omega)]

/-- Lines without a number leave everything as it is. -/
theorem foldl_place_numbered (lines : List (List Char)) (done : List String) :
    lines.foldl place done = (lines.filter tellsNumber).foldl place done := by
  rw [List.foldl_filter]
  congr
  funext done line
  split
  · rfl
  · next silent => rw [place,numbered?_eq_none (Bool.eq_false_iff.mpr silent)]

theorem foldl_place_ordered (trimmed : ∀ summary ∈ summaries, IsTrimmed summary) (front : List String)
    (readable : ∀ entry ∈ summaries.zipIdx (front.length + 1),
      tellsNumber (numberedLine entry.2 entry.1) = true) :
    ((summaries.zipIdx (front.length + 1)).map fun entry => numberedLine entry.2 entry.1).foldl place
      (front ++ List.replicate summaries.length "") = front ++ summaries := by
  induction summaries generalizing front with
  | nil => rfl
  | cons summary others ih =>
    rw [List.forall_mem_cons] at trimmed
    rw [List.zipIdx_cons,List.forall_mem_cons] at readable
    have first : place (front ++ List.replicate (summary :: others).length "")
        (numberedLine (front.length + 1) summary) =
          (front ++ [summary]) ++ List.replicate others.length "" := by
      rw [place_line trimmed.1 readable.1,List.length_cons,List.replicate_succ,
        List.set_append_right _ _ (Nat.le_refl _),Nat.sub_self,List.set_cons_zero,List.append_assoc,
        List.singleton_append]
    have later := ih trimmed.2 (front ++ [summary])
    rw [List.length_append,List.length_singleton] at later
    rw [List.zipIdx_cons,List.map_cons,List.foldl_cons,first,later readable.2,List.append_assoc,
      List.singleton_append]

theorem readable_of_tells (tells : Tells summaries reply) :
    ∀ entry ∈ summaries.zipIdx 1, tellsNumber (numberedLine entry.2 entry.1) = true := by
  intro entry member
  exact List.of_mem_filter (tells.mem_iff.mpr (List.mem_map_of_mem member))

theorem exists_slot (trimmed : ∀ summary ∈ summaries, IsTrimmed summary)
    (tells : Tells summaries reply) {line : List Char}
    (member : line ∈ (Text.lines reply.toList).filter tellsNumber) : ∃ summary slot,
      summaries[slot]? = some summary ∧ ∀ done, place done line = done.set slot summary := by
  obtain ⟨⟨summary,number⟩,entry,rfl⟩ := List.mem_map.mp (tells.mem_iff.mp member)
  obtain ⟨positive,here⟩ := List.mk_mem_zipIdx_iff_le_and_getElem?_sub.mp entry
  obtain ⟨slot,rfl⟩ := Nat.exists_eq_add_of_le' positive
  rw [Nat.add_sub_cancel] at here
  exact ⟨summary,slot,here,place_line (trimmed summary (List.mem_of_getElem? here))
    (readable_of_tells tells _ entry)⟩

/-- Two lines of one number are the same line, so that lines may be read in any order. -/
theorem place_comm (trimmed : ∀ summary ∈ summaries, IsTrimmed summary)
    (tells : Tells summaries reply) : ∀ one ∈ (Text.lines reply.toList).filter tellsNumber,
      ∀ two ∈ (Text.lines reply.toList).filter tellsNumber, ∀ done,
        place (place done one) two = place (place done two) one := by
  intro one first two second done
  obtain ⟨summary,slot,here,sets⟩ := exists_slot trimmed tells first
  obtain ⟨later,other,there,puts⟩ := exists_slot trimmed tells second
  rw [sets,puts,puts,sets]
  by_cases same : slot = other
  · rw [same,there] at here
    rw [same,Option.some.inj here]
  · exact List.set_comm summary later same

/-- A reply is read as what it tells. -/
theorem readReply_tells (trimmed : ∀ summary ∈ summaries, IsTrimmed summary)
    (tells : Tells summaries reply) : readReply reply.toList summaries.length = summaries := by
  rw [readReply,foldl_place_numbered,tells.foldl_eq' (place_comm trimmed tells)]
  exact foldl_place_ordered trimmed [] (readable_of_tells tells)

theorem answered_tells (trimmed : ∀ summary ∈ summaries, IsTrimmed summary)
    (tells : Tells summaries reply) (each : summaries.length = batch.length) :
    answered batch (some reply) = summaries := by
  have own : ∀ entry ∈ batch.zip summaries,
      (if entry.2.isEmpty then fallback entry.1 else entry.2) = entry.2 := by
    intro entry member
    rw [if_neg]
    rw [String.isEmpty_iff]
    exact (trimmed entry.2 (List.of_mem_zip member).2).1
  rw [answered,← each,readReply_tells trimmed tells,List.map_congr_left own]
  exact List.map_snd_zip (Nat.le_of_eq each)

/-- A request that is answered has the summary at each place that is assigned to it. -/
theorem getElem?_answered {size : Nat} (positive : 0 < size) {assistant : Assistant}
    {methods : List Method} {assigned : List String}
    (each : assigned.length = (methods.filter isPending).length)
    (trimmed : ∀ summary ∈ assigned, IsTrimmed summary)
    (answers : ∀ request summaries reply, (batches size assigned)[request]? = some summaries →
      assistant.answer request = some reply → Tells summaries reply)
    {place : Nat} {summary : String} (asked : (requests size methods)[place / size]? = some batch)
    (given : assigned[place]? = some summary)
    (answer : assistant.answer (place / size) = some reply) :
    (answered batch (some reply))[place % size]? = some summary := by
  obtain ⟨summaries,told,among⟩ := exists_batch positive given
  have length : summaries.length = batch.length := by
    have lengths := congrArg (fun lengths : List Nat => lengths[place / size]?)
      (@lengths_batches _ _ size _ _ each)
    rw [requests] at asked
    rw [List.getElem?_map,List.getElem?_map,told,asked] at lengths
    exact Option.some.inj lengths
  have own : ∀ summary ∈ summaries, IsTrimmed summary := by
    intro summary member
    apply trimmed
    rw [← flatten_batches positive assigned]
    exact List.mem_flatten.mpr ⟨summaries,List.mem_of_getElem? told,member⟩
  rw [answered_tells own (answers _ _ _ told answer) length,among]

/-- The method stands on a line of its own in the prompt: the number and a point, its annotations,
each with a space behind it, and its signature. -/
def Puts (prompt : String) (number : Nat) (method : Method) : Prop :=
  ∃ front back, prompt = front ++ "\n" ++ (toString number ++ ". " ++
    String.ofList (method.annotations.flatMap fun mark => mark.text.toList ++ [' ']) ++
      method.signature) ++ "\n" ++ back

theorem intercalate_behind (first : List Char) (others : List (List Char)) :
    [' '].intercalate (first :: others) ++ [' '] =
      (first :: others).flatMap fun text => text ++ [' '] := by
  induction others generalizing first with
  | nil => simp
  | cons next others ih =>
    rw [List.intercalate_cons_cons,List.append_assoc,ih,List.append_assoc]
    exact (List.append_assoc first [' '] _).symm

/-- Texts with spaces between them and behind them. There is nothing to put a space behind only if
there is no text, since none of them is empty. -/
theorem spaced_join {texts : List String} (written : ∀ text ∈ texts, text ≠ "") :
    (if (Text.join " " texts).isEmpty then "" else Text.join " " texts ++ " ") =
      String.ofList (texts.flatMap fun text => text.toList ++ [' ']) := by
  cases texts with
  | nil => rfl
  | cons first others =>
    have given : ¬(Text.join " " (first :: others)).isEmpty = true := by
      rw [String.isEmpty_iff,Text.join,List.map_cons,Text.intercalate_cons]
      intro empty
      have parts := congrArg String.toList empty
      rw [String.toList_ofList,String.toList_empty,List.append_eq_nil_iff] at parts
      exact written first List.mem_cons_self (String.toList_eq_nil_iff.mp parts.1)
    rw [if_neg given]
    apply String.toList_injective
    rw [String.toList_append,Text.join,← List.flatMap_map String.toList fun text => text ++ [' ']]
    simp only [String.toList_ofList]
    exact intercalate_behind first.toList (others.map String.toList)

theorem markText_ne (mark : AnnotationUse) : mark.text ≠ "" := by
  intro empty
  have chars := congrArg String.toList empty
  rw [AnnotationUse.text] at chars
  split at chars <;> simp at chars

theorem promptLine_eq (number : Nat) (method : Method) : promptLine number method =
    toString number ++ ". " ++
      String.ofList (method.annotations.flatMap fun mark => mark.text.toList ++ [' ']) ++
        method.signature := by
  have numeral : String.ofList (Text.ofInt number) = toString number := rfl
  have marks : ∀ text ∈ method.annotations.map AnnotationUse.text, text ≠ "" :=
    List.forall_mem_map.mpr fun mark _ => markText_ne mark
  rw [promptLine,numeral,spaced_join marks,List.flatMap_map]

theorem line_of_join {head lines foot : List String} {line : String} (member : line ∈ lines)
    (headed : head ≠ []) (footed : foot ≠ []) : ∃ front back,
      Text.join "\n" (head ++ lines ++ foot) = front ++ "\n" ++ line ++ "\n" ++ back := by
  obtain ⟨before,behind,rfl⟩ := List.append_of_mem member
  obtain ⟨first,more,rfl⟩ := List.exists_cons_of_ne_nil headed
  obtain ⟨next,others,tail⟩ := List.exists_cons_of_ne_nil
    (List.append_ne_nil_of_right_ne_nil behind footed)
  let after (lines : List String) := (lines.map String.toList).flatMap fun line => '\n' :: line
  refine ⟨String.ofList (first.toList ++ after (more ++ before)),
    String.ofList (next.toList ++ after others),?_⟩
  rw [List.append_assoc,List.append_assoc,List.cons_append,List.cons_append,tail,Text.join,
    List.map_cons,Text.intercalate_cons]
  apply String.toList_injective
  simp [after]

theorem prompt_puts {k : Nat} {method : Method} (found : batch[k]? = some method) :
    Puts (prompt batch) (k + 1) method := by
  have entry : (method,k + 1) ∈ batch.zipIdx 1 :=
    List.mk_mem_zipIdx_iff_le_and_getElem?_sub.mpr ⟨Nat.le_add_left 1 k,found⟩
  have line : promptLine (k + 1) method ∈ (batch.zipIdx 1).map fun entry =>
      promptLine entry.2 entry.1 := List.mem_map.mpr ⟨_,entry,rfl⟩
  rw [Puts,prompt,← promptLine_eq]
  exact line_of_join line (List.cons_ne_nil _ _) (List.cons_ne_nil _ _)

end Replies

/-- Each pending method is asked about once, in order, and has the summary that the answer to its
request tells under its number, or its signature if that request fails. -/
theorem summaries_reach_methods {size : Nat} (positive : 0 < size) (assistant : Assistant)
    (methods : List Method) {assigned : List String}
    (each : assigned.length = (methods.filter isPending).length)
    (trimmed : ∀ summary ∈ assigned, IsTrimmed summary)
    (answers : ∀ request summaries reply, (batches size assigned)[request]? = some summaries →
      assistant.answer request = some reply → Tells summaries reply) :
    (requests size methods).flatten = methods.filter isPending ∧
    (∀ batch ∈ requests size methods, batch ≠ [] ∧ batch.length ≤ size) ∧
    ∃ done after, byAssistant (some assistant) size methods = .ok (done,some after) ∧
      after.prompts = assistant.prompts ++ (requests size methods).map prompt ∧
      done.length = methods.length ∧
      ∀ (i : Nat) (method : Method), methods[i]? = some method →
        (isPending method = false → done[i]? = some method) ∧
        (isPending method = true → ∃ place batch summary, place = pendingBefore methods i ∧
          (requests size methods)[place / size]? = some batch ∧
          batch[place % size]? = some method ∧ Puts (prompt batch) (place % size + 1) method ∧
          assigned[place]? = some summary ∧
          done[i]? = some {method with summary :=
            if (assistant.answer (place / size)).isSome then summary else fallback method}) := by
  refine ⟨flatten_batches positive _,fun batch => bounds_of_mem_batches,_,_,
    byAssistant_eq positive assistant methods,rfl,length_of_getElem? (getElem?_deliver methods _),?_⟩
  intro i method found
  have here := getElem?_deliver methods (summariesFor assistant (requests size methods)) i
  rw [found,Option.map_some,received] at here
  constructor
  · intro settled
    rwa [settled,if_neg Bool.false_ne_true] at here
  · intro pending
    have waiting := getElem?_pending i found pending
    obtain ⟨batch,asked,inside⟩ := exists_batch positive waiting
    have last := (List.getElem?_eq_some_iff.mp waiting).1
    rw [← each] at last
    have summary := List.getElem?_eq_getElem last
    refine ⟨_,batch,_,rfl,asked,inside,prompt_puts inside,summary,?_⟩
    rw [getElem?_summariesFor positive asked,if_pos pending] at here
    rw [here]
    cases answer : assistant.answer (pendingBefore methods i / size) with
    | none =>
      rw [answered,List.getElem?_map,inside]
      rfl
    | some reply =>
      rw [getElem?_answered positive each trimmed answers asked summary answer]
      rfl

/-- Three methods wait in two requests, one of which is answered out of order and with remarks, while
the other fails. -/
theorem summaries_reach_methods_shuffled :
    let methods : List Method := [{name := "a",signature := "void a()",summary := "Kept."},
      {name := "b",signature := "void b()"},{name := "c",signature := "void c()",javadoc := "Doc."},
      {name := "d",signature := "void d()"},{name := "e",signature := "void e()"}]
    let reply := "Summaries:\n2. Divides. By two.\n\nNote. The last one\n1. Begins."
    let assistant : Assistant := {replies := [some reply,none]}
    let assigned := ["Begins.","Divides. By two.","Ends."]
    assigned.length = (methods.filter isPending).length ∧
    (∀ summary ∈ assigned, IsTrimmed summary) ∧
    Tells ["Begins.","Divides. By two."] reply ∧
    ∃ done after, byAssistant (some assistant) 2 methods = .ok (done,some after) ∧
      after.prompts.length = 2 ∧ (done[1]?).map Method.summary = some "Begins." ∧
      (done[3]?).map Method.summary = some "Divides. By two." ∧
      (done[4]?).map Method.summary = some "void e()" := by
  intro methods reply assistant assigned
  have each : assigned.length = (methods.filter isPending).length := by decide
  have trimmed : ∀ summary ∈ assigned, IsTrimmed summary := by decide +kernel
  have tells : Tells ["Begins.","Divides. By two."] reply := by decide +kernel
  have groups : batches 2 assigned = [["Begins.","Divides. By two."],["Ends."]] := by decide +kernel
  have asked : (requests 2 methods).length = 2 := by decide +kernel
  have answers : ∀ request summaries reply, (batches 2 assigned)[request]? = some summaries →
      assistant.answer request = some reply → Tells summaries reply := by
    intro request summaries told group answer
    rw [groups] at group
    match request with
    | 0 =>
      cases group
      cases answer
      exact tells
    | 1 => cases answer
    | n + 2 => cases group
  obtain ⟨_,_,done,after,given,prompts,_,reached⟩ :=
    summaries_reach_methods (by decide : 0 < 2) assistant methods each trimmed answers
  refine ⟨each,trimmed,tells,done,after,given,?_,?_,?_,?_⟩
  · rw [prompts,List.length_append,List.length_map,asked]
    rfl
  · obtain ⟨_,_,_,rfl,_,_,_,summary,here⟩ := (reached 1 _ rfl).2 rfl
    cases summary
    rw [here]
    decide +kernel
  · obtain ⟨_,_,_,rfl,_,_,_,summary,here⟩ := (reached 3 _ rfl).2 rfl
    cases summary
    rw [here]
    decide +kernel
  · obtain ⟨_,_,_,rfl,_,_,_,summary,here⟩ := (reached 4 _ rfl).2 rfl
    cases summary
    rw [here]
    decide +kernel

end JavaAtlas.Summary
