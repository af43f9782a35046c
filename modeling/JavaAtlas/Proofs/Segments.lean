import JavaAtlas.Discovery
import JavaAtlas.Java.Endpoint
import JavaAtlas.Proofs.Trimming

/-! Texts divided by slashes. Joining paths puts their segments one behind the other and collapses
slashes at the seam as everywhere, so that it does not matter which paths are joined first. A file
is skipped for the whole name of a directory on its way. -/
namespace JavaAtlas

namespace Endpoint
variable {one two text : List Char}

section Slashes

/-- A character in front of a text without doubled slashes. -/
def put (c : Char) (text : List Char) : List Char :=
  if c = '/' ∧ text.head? = some '/' then text else c :: text

theorem head?_put (c : Char) (text : List Char) : (put c text).head? = some c := by
  unfold put
  split
  · next both => rw [both.2,both.1]
  · rfl

theorem head?_collapseSlashes (text : List Char) : (collapseSlashes text).head? = text.head? := by
  fun_induction collapseSlashes text with
  | case1 => rfl
  | case2 => rfl
  | case3 c next rest both ih =>
    rw [Bool.and_eq_true,beq_iff_eq,beq_iff_eq] at both
    rw [ih,both.1,both.2]
    rfl
  | case4 => rfl

theorem collapseSlashes_cons (c : Char) (text : List Char) :
    collapseSlashes (c :: text) = put c (collapseSlashes text) := by
  unfold put
  rw [head?_collapseSlashes]
  cases text with
  | nil => simp [collapseSlashes]
  | cons next rest => simp [collapseSlashes]

theorem collapseSlashes_append (one two : List Char) :
    collapseSlashes (one ++ two) = one.foldr put (collapseSlashes two) := by
  induction one with
  | nil => rfl
  | cons c one ih => rw [List.cons_append,collapseSlashes_cons,ih,List.foldr_cons]

theorem put_slash_again (text : List Char) : put '/' (put '/' text) = put '/' text := by
  have again : '/' = '/' ∧ (put '/' text).head? = some '/' := ⟨rfl,head?_put '/' text⟩
  exact if_pos again

theorem foldr_put_put (c : Char) (one text : List Char) :
    (put c one).foldr put text = put c (one.foldr put text) := by
  by_cases both : c = '/' ∧ one.head? = some '/'
  · obtain ⟨rest,rfl⟩ := List.head?_eq_some_iff.mp both.2
    obtain ⟨rfl,_⟩ := both
    rw [put,if_pos ⟨rfl,rfl⟩,List.foldr_cons,put_slash_again]
  · rw [put,if_neg both,List.foldr_cons]

theorem foldr_put_collapseSlashes (one text : List Char) :
    (collapseSlashes one).foldr put text = one.foldr put text := by
  induction one with
  | nil => rfl
  | cons c one ih => rw [collapseSlashes_cons,foldr_put_put,ih,List.foldr_cons]

/-- What stands in front may be collapsed beforehand. -/
theorem collapseSlashes_left (one two : List Char) :
    collapseSlashes (collapseSlashes one ++ two) = collapseSlashes (one ++ two) := by
  rw [collapseSlashes_append,collapseSlashes_append,foldr_put_collapseSlashes]

theorem collapseSlashes_idem (text : List Char) :
    collapseSlashes (collapseSlashes text) = collapseSlashes text := by
  have left := collapseSlashes_left text []
  rwa [List.append_nil,List.append_nil] at left

/-- What stands behind may be collapsed beforehand. -/
theorem collapseSlashes_right (one two : List Char) :
    collapseSlashes (one ++ collapseSlashes two) = collapseSlashes (one ++ two) := by
  rw [collapseSlashes_append,collapseSlashes_append,collapseSlashes_idem]

theorem undoubled (text : List Char) : ¬['/','/'] <:+: collapseSlashes text := by
  induction text with
  | nil => simp [collapseSlashes]
  | cons c text ih =>
    rw [collapseSlashes_cons,put]
    split
    · exact ih
    · next apart =>
      rw [List.infix_cons_iff,not_or]
      refine ⟨?_,ih⟩
      rintro ⟨rest,shape⟩
      obtain ⟨rfl,behind⟩ := List.cons.inj shape
      exact apart ⟨rfl,by rw [← behind]; rfl⟩

end Slashes

section Joining

/-- The parts of a path between its slashes, without those that are empty. -/
def segments (path : List Char) : List (List Char) :=
  (path.splitOn '/').filter fun part => !part.isEmpty

theorem segments_append (one two : List Char) :
    segments (one ++ '/' :: two) = segments one ++ segments two := by
  rw [segments,List.splitOn_append_cons_self,List.filter_append]
  rfl

theorem splitOn_slash (text : List Char) : ('/' :: text).splitOn '/' = [] :: text.splitOn '/' :=
  List.splitOn_append_cons_self [] text

theorem splitOn_solid {c : Char} (solid : c ≠ '/') (text : List Char) :
    (c :: text).splitOn '/' = (text.splitOn '/').modifyHead (c :: ·) := by
  rw [List.splitOn_cons_eq_if_modifyHead,if_neg (by simpa using solid)]

/-- The part in front of the first slash stays, and behind it only empty parts are lost. -/
theorem splitOn_collapseSlashes (text : List Char) : ∃ first kept all : _,
    (collapseSlashes text).splitOn '/' = first :: kept ∧ text.splitOn '/' = first :: all ∧
      (kept.filter fun part => !part.isEmpty) = all.filter fun part => !part.isEmpty := by
  induction text with
  | nil => exact ⟨[],[],[],rfl,rfl,rfl⟩
  | cons c text ih =>
    obtain ⟨first,kept,all,collapsed,plain,same⟩ := ih
    rw [collapseSlashes_cons,put]
    by_cases slash : c = '/'
    · subst slash
      rw [splitOn_slash,plain]
      split
      -- Of two slashes one is left out, and with it the empty part between them.
      · next doubled =>
        obtain ⟨rest,shape⟩ := List.head?_eq_some_iff.mp doubled.2
        have starts := collapsed
        rw [shape,splitOn_slash] at starts
        obtain ⟨rfl,_⟩ := List.cons.inj starts
        exact ⟨[],kept,[] :: all,collapsed,rfl,same⟩
      · refine ⟨[],first :: kept,first :: all,by rw [splitOn_slash,collapsed],rfl,?_⟩
        rw [List.filter_cons,List.filter_cons,same]
    · rw [if_neg fun both => slash both.1,splitOn_solid slash,splitOn_solid slash,collapsed,plain]
      exact ⟨c :: first,kept,all,rfl,rfl,same⟩

theorem segments_collapseSlashes (text : List Char) :
    segments (collapseSlashes text) = segments text := by
  obtain ⟨first,kept,all,collapsed,plain,same⟩ := splitOn_collapseSlashes text
  rw [segments,segments,collapsed,plain,List.filter_cons,List.filter_cons,same]

/-- What is written behind the path of a class for that of a method. -/
def behind (path : List Char) : List Char := if path.isEmpty then [] else '/' :: path

theorem behind_of_ne_nil (given : text ≠ []) : behind text = '/' :: text := by
  rw [behind,if_neg (by simpa using given)]

theorem joinPaths_eq (one two : List Char) :
    joinPaths one two = collapseSlashes (one ++ behind two) := by
  rw [joinPaths,behind]
  split <;> simp

theorem collapseSlashes_behind (one two : List Char) :
    collapseSlashes (one ++ behind (collapseSlashes two)) =
      collapseSlashes (one ++ behind two) := by
  cases two with
  | nil => rfl
  | cons c two =>
    have given : collapseSlashes (c :: two) ≠ [] := by
      intro empty
      have head := head?_collapseSlashes (c :: two)
      rw [empty] at head
      cases head
    have right := collapseSlashes_right (one ++ ['/']) (c :: two)
    rw [List.append_assoc,List.append_assoc] at right
    rw [behind_of_ne_nil given,behind_of_ne_nil (List.cons_ne_nil c two)]
    exact right

/-- One slash is written where two paths meet, however many of them are empty. -/
theorem collapseSlashes_behind_behind (one two three : List Char) :
    collapseSlashes (one ++ behind (two ++ behind three)) =
      collapseSlashes (one ++ (behind two ++ behind three)) := by
  cases two with
  | nil =>
    cases three with
    | nil => rfl
    | cons c three =>
      -- Nothing stands between the two slashes on the left.
      have doubled : collapseSlashes ('/' :: '/' :: c :: three) =
          collapseSlashes ('/' :: c :: three) := by simp [collapseSlashes]
      have right := collapseSlashes_right one ('/' :: '/' :: c :: three)
      rw [doubled,collapseSlashes_right] at right
      exact right.symm
  | cons c two => rfl

/-- Joined paths have no doubled slashes and the segments of both in order; joining is associative,
and an empty path behind a joined one changes nothing. -/
theorem joinPaths_composes (one two three : List Char) :
    ¬['/','/'] <:+: joinPaths one two ∧
      segments (joinPaths one two) = segments one ++ segments two ∧
      joinPaths (joinPaths one two) three = joinPaths one (joinPaths two three) ∧
      joinPaths (joinPaths one two) [] = joinPaths one two := by
  refine ⟨?_,?_,?_,?_⟩
  · rw [joinPaths_eq]
    exact undoubled _
  · rw [joinPaths_eq,segments_collapseSlashes]
    by_cases empty : two = []
    · subst empty
      exact (congrArg segments (List.append_nil one)).trans (List.append_nil _).symm
    · rw [behind_of_ne_nil empty,segments_append]
  · simp only [joinPaths_eq]
    rw [collapseSlashes_left,collapseSlashes_behind,collapseSlashes_behind_behind,List.append_assoc]
  · have nothing : behind [] = [] := rfl
    simp only [joinPaths_eq,nothing,List.append_nil,collapseSlashes_idem]

example : joinPaths "/users/".toList "/{id}".toList = "/users/{id}".toList := by decide +kernel

end Joining

end Endpoint

namespace Text
variable {mark : Char} {name text : List Char}

theorem intercalate_append {front back : List (List Char)} (before : front ≠ [])
    (behind : back ≠ []) : [mark].intercalate (front ++ back) =
      [mark].intercalate front ++ mark :: [mark].intercalate back := by
  induction front with
  | nil => exact absurd rfl before
  | cons first front ih =>
    by_cases last : front = []
    · subst last
      rw [List.singleton_append,List.intercalate_cons_of_ne_nil behind,List.intercalate_singleton,
        List.append_assoc,List.singleton_append]
    · rw [List.cons_append,List.intercalate_cons_of_ne_nil (by simp [last]),
        List.intercalate_cons_of_ne_nil last,ih last]
      simp only [List.append_assoc]

/-- A part that is not the last one is told by the marks around it, or by the one behind it where
the text begins. -/
theorem mem_dropLast_splitOn (solid : mark ∉ name) : name ∈ (text.splitOn mark).dropLast ↔
    name ++ [mark] <+: text ∨ mark :: (name ++ [mark]) <:+: text := by
  constructor
  · intro member
    obtain ⟨front,back,shape⟩ := List.append_of_mem member
    have whole := List.dropLast_append_getLast (List.splitOn_ne_nil mark text)
    have joined := @List.intercalate_splitOn _ text _ _ mark
    rw [← whole,shape,List.append_assoc,List.cons_append] at joined
    -- Behind a part that is not the last one there is another, and so a mark.
    have further {last : List Char} : back ++ [last] ≠ [] := by simp
    by_cases first : front = []
    · rw [first,List.nil_append,List.intercalate_cons_of_ne_nil further] at joined
      exact .inl ⟨_,joined⟩
    · rw [intercalate_append first (List.cons_ne_nil _ _),
        List.intercalate_cons_of_ne_nil further] at joined
      exact .inr ⟨_,_,(by simpa using joined)⟩
  · have given (rest : List Char) := List.splitOn_ne_nil mark rest
    rintro (⟨rest,rfl⟩ | ⟨front,rest,rfl⟩)
    · rw [List.append_assoc,List.singleton_append,List.splitOn_append_cons_self_of_not_mem solid,
        List.dropLast_cons_of_ne_nil (given rest)]
      exact List.mem_cons_self
    · have shape : front ++ mark :: (name ++ [mark]) ++ rest =
          front ++ mark :: (name ++ mark :: rest) := by simp
      rw [shape,List.splitOn_append_cons_self,List.splitOn_append_cons_self_of_not_mem solid,
        List.dropLast_append_of_ne_nil (List.cons_ne_nil _ _),
        List.dropLast_cons_of_ne_nil (given rest)]
      exact List.mem_append_right _ List.mem_cons_self

end Text

namespace Discovery

/-- A slash of either kind. -/
def isSlash (c : Char) : Bool := c == '/' || c == '\\'

/-- The names in a path, between slashes of either kind. -/
def components (path : String) : List String :=
  (path.toList.splitOnP isSlash).map String.ofList

/-- The names of the directories that are skipped. -/
def skippedNames : List String :=
  skipped.map fun directory => String.ofList directory.toList.dropLast

theorem splitOn_slashes (text : List Char) :
    (text.map fun c => if c == '\\' then '/' else c).splitOn '/' = text.splitOnP isSlash := by
  induction text with
  | nil => rfl
  | cons c text ih =>
    rw [List.map_cons,List.splitOn_cons_eq_if_modifyHead,List.splitOnP_cons_eq_if_modifyHead,ih,
      isSlash]
    by_cases back : c = '\\'
    · simp [back]
    · by_cases slash : c = '/' <;> simp [back,slash]

theorem shape_of_skipped : ∀ directory ∈ skipped,
    directory.toList = directory.toList.dropLast ++ ['/'] ∧ '/' ∉ directory.toList.dropLast := by
  decide +kernel

theorem passes_iff {directory : String} (member : directory ∈ skipped) (text : List Char) :
    (directory.toList.isPrefixOf text || Text.occursIn ('/' :: directory.toList) text) = true ↔
      directory.toList.dropLast ∈ (text.splitOn '/').dropLast := by
  obtain ⟨shape,solid⟩ := shape_of_skipped directory member
  rw [Text.mem_dropLast_splitOn solid,← shape,Bool.or_eq_true,List.isPrefixOf_iff_prefix,
    Text.occursIn_iff]

theorem isSkipped_iff {path : String} :
    isSkipped path = true ↔ ∃ name ∈ (components path).dropLast, name ∈ skippedNames := by
  rw [isSkipped,List.any_eq_true,components,← List.map_dropLast,skippedNames,← splitOn_slashes]
  constructor
  · rintro ⟨directory,member,found⟩
    exact ⟨_,List.mem_map_of_mem ((passes_iff member _).mp found),List.mem_map_of_mem member⟩
  · rintro ⟨name,among,listed⟩
    obtain ⟨part,found,rfl⟩ := List.mem_map.mp among
    obtain ⟨directory,member,same⟩ := List.mem_map.mp listed
    have chars := String.ofList_injective same
    exact ⟨directory,member,(passes_iff member _).mpr (chars ▸ found)⟩

theorem components_append (path : String) {file : String}
    (solid : ∀ c ∈ file.toList, isSlash c = false) :
    components (path ++ "/" ++ file) = components path ++ [file] := by
  have slash : isSlash '/' = true := rfl
  have shape : (path ++ "/" ++ file).toList = path.toList ++ '/' :: file.toList := by simp
  rw [components,shape,List.splitOnP_append_cons _ _ slash,List.splitOnP_eq_singleton solid,
    List.map_append,List.map_singleton,String.ofList_toList]
  rfl

/-- A path is skipped for a name in it that is, as a whole, the name of a directory to be skipped.
The last name is that of the file and does not count, whatever it is. -/
theorem isSkipped_by_directory (path : String) :
    (isSkipped path = true ↔ ∃ name ∈ (components path).dropLast, name ∈ skippedNames) ∧
      ∀ file : String, (∀ c ∈ file.toList, isSlash c = false) →
        (isSkipped (path ++ "/" ++ file) = true ↔
          ∃ name ∈ components path, name ∈ skippedNames) := by
  refine ⟨isSkipped_iff,?_⟩
  intro file solid
  rw [isSkipped_iff,components_append path solid,List.dropLast_concat]

/-- Slashes of both kinds, a name that contains a skipped one, and a file with a skipped one. -/
theorem isSkipped_by_directory_mixed :
    (∀ c ∈ "bin".toList, isSlash c = false) ∧ isSkipped ("my-build\\out" ++ "/" ++ "bin") = true ∧
      isSkipped ("my-build\\outer" ++ "/" ++ "bin") = false := by
  have solid : ∀ c ∈ "bin".toList, isSlash c = false := by decide
  have inside := (isSkipped_by_directory "my-build\\out").2 "bin" solid
  have beside := (isSkipped_by_directory "my-build\\outer").2 "bin" solid
  refine ⟨solid,inside.mpr ⟨"out",by decide +kernel,by decide +kernel⟩,?_⟩
  rw [Bool.eq_false_iff,ne_eq,beside]
  decide +kernel

end Discovery

end JavaAtlas
