import JavaAtlas.Proofs.Sources

/-! Sources of one class. They are picked from the first sources of the folder, up to the limit on
all of them, so that a file of the class is found only if few enough sources come before it. -/
namespace JavaAtlas.Discovery

/-- In an increasing list the first items are those with few before them. -/
theorem mem_take_of_strict {α : Type} [LinearOrder α] [DecidableLT α] {items : List α}
    (strict : items.Pairwise (· < ·)) {item : α} {count : Nat} :
    item ∈ items.take count ↔ item ∈ items ∧ items.countP (· < item) < count := by
  induction items generalizing count with
  | nil => simp
  | cons first rest ih =>
    rw [List.pairwise_cons] at strict
    cases count with
    | zero => simp
    | succ count =>
      rw [List.take_succ_cons,List.mem_cons,List.mem_cons,ih strict.2,List.countP_cons]
      constructor
      · rintro (rfl | ⟨member,few⟩)
        · have least : rest.countP (· < item) = 0 := by
            rw [List.countP_eq_zero]
            intro other member
            simpa using (strict.1 other member).le
          simp [least]
        · have below : first < item := strict.1 item member
          simp only [below,decide_true,if_true]
          exact ⟨.inr member,Nat.succ_lt_succ few⟩
      · rintro ⟨rfl | member,few⟩
        · exact .inl rfl
        · have below : first < item := strict.1 item member
          simp only [below,decide_true,if_true] at few
          exact .inr ⟨member,Nat.lt_of_succ_lt_succ few⟩

theorem takeUpTo_limit {α : Type} (limit : Nat) (items : List α) :
    (if (limit : Int) < items.length then takeUpTo limit items else items) = items.take limit := by
  split
  · rw [takeUpTo,if_neg (by omega),Int.toNat_natCast]
  · next short => rw [List.take_of_length_le (by omega)]

/-- All sources below a place that are not too large, in no order. -/
def allSources (disk : Disk) (place : Place) : List (List String) :=
  ((disk.filesBelow place).filter (isSource defaultMaxSize)).map Prod.fst

/-- A file below the place that is neither skipped nor too large, with a name that ends in the file
name of the class. -/
structure IsClassFile (disk : Disk) (place : Place) (className : String) (parts : List String) :
    Prop where
  given : parts ≠ []
  file : ∃ bytes, disk.node? (place ++ parts) = some (.file bytes) ∧ bytes.length ≤ 1048576
  kept : isSkipped (Text.join "/" parts) = false
  named : (className ++ ".java").toList <:+ (Path.mk 0 parts).name.toList

/-- The files of the class among the first sources. -/
def ofClass (disk : Disk) (place : Place) (className : String) : List (List String) :=
  (relative disk place defaultMaxFiles defaultMaxSize).filter fun parts =>
    belongsTo className (Path.mk 0 parts).name

section Names
variable {name className : String}

theorem suffix_of_java {front : List Char} (given : front ≠ [])
    (ends : name.toList = front ++ ".java".toList) : Path.suffix name = ".java" := by
  have solid : '.' ∉ "java".toList := by decide
  have chars : name.toList = front ++ '.' :: "java".toList := ends
  rw [Path.suffix,chars,Text.afterLast_append,Text.afterLast_of_not_mem solid,
    Text.beforeLast_append solid,if_neg (by simp [given])]
  rfl

theorem suffix_of_class (named : className ≠ "")
    (ends : (className ++ ".java").toList <:+ name.toList) : Path.suffix name = ".java" := by
  obtain ⟨front,chars⟩ := ends
  rw [String.toList_append,← List.append_assoc] at chars
  apply suffix_of_java _ chars.symm
  apply List.append_ne_nil_of_right_ne_nil
  rwa [ne_eq,String.toList_eq_nil_iff]

theorem belongsTo_iff (oneLine : '\n' ∉ name.toList) :
    belongsTo className name = true ↔ (className ++ ".java").toList <:+ name.toList := by
  have clean (count : Nat) : (name.toList.take count).contains '\n' = false := by
    rw [Bool.eq_false_iff,ne_eq,List.contains_iff_mem]
    exact fun member => oneLine (List.mem_of_mem_take member)
  rw [belongsTo,clean,Bool.not_false,Bool.and_true,List.isSuffixOf_iff_suffix,String.toList_append]

end Names

section Found
variable {disk : Disk} {here place : Place} {folder : Path} {className : String}
  {parts : List String}

theorem mem_allSources : parts ∈ allSources disk place ↔
    ∃ bytes, (parts,bytes) ∈ disk.filesBelow place ∧
      isSource defaultMaxSize (parts,bytes) = true := by
  simp [allSources]

theorem nodup_allSources (disk : Disk) (place : Place) : (allSources disk place).Nodup := by
  apply List.Nodup.map_on _ ((Disk.nodup_filesBelow disk place).filter _)
  rintro ⟨parts,bytes⟩ one ⟨_,other⟩ two rfl
  have first := (Disk.mem_filesBelow.mp (List.mem_filter.mp one).1).2
  have second := (Disk.mem_filesBelow.mp (List.mem_filter.mp two).1).2
  rw [first] at second
  cases second
  rfl

theorem strict_sources (disk : Disk) (place : Place) :
    ((allSources disk place).mergeSort comesBefore).Pairwise (· < ·) := by
  have ordered : ((allSources disk place).mergeSort comesBefore).Pairwise
      fun first second => comesBefore first second = true := by
    apply List.pairwise_mergeSort
    · intro first second third
      simpa only [comesBefore_iff] using le_trans
    · intro first second
      simpa only [Bool.or_eq_true,comesBefore_iff] using le_total first second
  have distinct := (List.mergeSort_perm _ comesBefore).nodup_iff.mpr (nodup_allSources disk place)
  refine ordered.imp₂ ?_ distinct
  intro first second below apart
  exact lt_of_le_of_ne (comesBefore_iff.mp below) apart

theorem relative_eq (disk : Disk) (place : Place) :
    relative disk place defaultMaxFiles defaultMaxSize =
      ((allSources disk place).mergeSort comesBefore).take 5000 :=
  takeUpTo_limit 5000 _

/-- A source is among the first ones if few enough come before it. -/
theorem mem_relative_iff : parts ∈ relative disk place defaultMaxFiles defaultMaxSize ↔
    parts ∈ allSources disk place ∧ (allSources disk place).countP (· < parts) < 5000 := by
  rw [relative_eq,mem_take_of_strict (strict_sources disk place),List.mem_mergeSort,
    (List.mergeSort_perm _ comesBefore).countP_eq]

theorem isClassFile_iff (named : className ≠ "")
    (oneLine : parts ∈ disk.below place → '\n' ∉ (Path.mk 0 parts).name.toList) :
    (parts ∈ allSources disk place ∧ belongsTo className (Path.mk 0 parts).name = true) ↔
      IsClassFile disk place className parts := by
  have listed {bytes : List UInt8} (given : parts ≠ [])
      (node : disk.node? (place ++ parts) = some (.file bytes)) : parts ∈ disk.below place :=
    Disk.mem_below.mpr ⟨given,by rw [node]; exact Option.some_ne_none _⟩
  rw [mem_allSources]
  constructor
  · rintro ⟨⟨bytes,file,source⟩,belongs⟩
    obtain ⟨given,node⟩ := Disk.mem_filesBelow.mp file
    rw [isSource,Bool.and_eq_true,Bool.and_eq_true,Bool.not_eq_true',decide_eq_true_eq] at source
    have short : bytes.length ≤ 1048576 := Int.ofNat_le.mp source.2
    have named := (belongsTo_iff (oneLine (listed given node))).mp belongs
    exact ⟨given,⟨bytes,node,short⟩,source.1.1,named⟩
  · rintro ⟨given,⟨bytes,node,short⟩,kept,ends⟩
    have size : (bytes.length : Int) ≤ defaultMaxSize := Int.ofNat_le.mpr short
    have suffix : Path.suffix (parts.getLast?.getD "") = ".java" := suffix_of_class named ends
    have java : (languageOf? (Path.suffix (parts.getLast?.getD ""))).isSome = true := by
      rw [suffix]
      rfl
    refine ⟨⟨bytes,Disk.mem_filesBelow.mpr ⟨given,node⟩,?_⟩,
      (belongsTo_iff (oneLine (listed given node))).mpr ends⟩
    rw [isSource,kept,java,Bool.not_false,Bool.true_and,Bool.true_and,decide_eq_true_eq]
    exact size

theorem mem_ofClass (named : className ≠ "")
    (oneLine : parts ∈ disk.below place → '\n' ∉ (Path.mk 0 parts).name.toList) :
    parts ∈ ofClass disk place className ↔ IsClassFile disk place className parts ∧
      (allSources disk place).countP (· < parts) < 5000 := by
  rw [ofClass,List.mem_filter,mem_relative_iff,← isClassFile_iff named oneLine,and_right_comm]

theorem classSourcesAt_eq (reached : disk.locate here folder = .ok place)
    (directory : disk.node? place = some .directory)
    (short : ∀ parts ∈ disk.below place,
      (folder.join ⟨0,parts⟩).text.utf8ByteSize ≤ Disk.pathLimit) :
    classSourcesAt disk here folder className =
      .ok ((ofClass disk place className).map fun parts => folder.join ⟨0,parts⟩) := by
  rw [classSourcesAt,(lookThrough_iff reached).mpr short,classSources,
    sources_relative reached directory,List.filter_map,ofClass]
  apply congrArg fun found : List (List String) =>
    Except.ok (found.map fun parts => folder.join ⟨0,parts⟩)
  apply List.filter_congr
  intro parts member
  obtain ⟨bytes,file,_⟩ := mem_relative member
  exact congrArg (belongsTo className) (Query.name_join (Disk.mem_filesBelow.mp file).1 folder)

/-- The files of a class that are found are those before which less than five thousand sources
stand, each once and in order. These are all files of the class where the folder holds no more
sources. -/
theorem class_found_among_first (reached : disk.locate here folder = .ok place)
    (directory : disk.node? place = some .directory)
    (short : ∀ parts ∈ disk.below place,
      (folder.join ⟨0,parts⟩).text.utf8ByteSize ≤ Disk.pathLimit)
    (oneLine : ∀ parts ∈ disk.below place, '\n' ∉ (Path.mk 0 parts).name.toList)
    (named : className ≠ "") :
    ∃ found : List (List String),
      classSourcesAt disk here folder className =
        .ok (found.map fun parts => folder.join ⟨0,parts⟩) ∧
      found.Pairwise (· < ·) ∧
      (∀ parts, parts ∈ found ↔ IsClassFile disk place className parts ∧
        (allSources disk place).countP (· < parts) < 5000) ∧
      ((allSources disk place).length ≤ 5000 →
        ∀ parts, parts ∈ found ↔ IsClassFile disk place className parts) := by
  refine ⟨ofClass disk place className,classSourcesAt_eq reached directory short,?_,
    fun parts => mem_ofClass named (oneLine parts),?_⟩
  · rw [ofClass,relative_eq]
    exact (strict_sources disk place).sublist (List.filter_sublist.trans (List.take_sublist _ _))
  · intro few parts
    rw [mem_ofClass named (oneLine parts),and_iff_left_iff_imp]
    intro file
    have source := ((isClassFile_iff named (oneLine parts)).mpr file).1
    refine Nat.lt_of_lt_of_le (List.countP_lt_length_iff.mpr ⟨parts,source,?_⟩) few
    simp

end Found

/-- A folder with a class in a directory of its own, and a copy of it that was built. -/
def shelf : Disk where
  nodes := .ofList [(["src"],.directory),(["src","a"],.directory),(["src","build"],.directory),
    (["src","build","User.java"],.file []),(["src","a","SuperUser.java"],.file []),
    (["src","Users.java"],.file [])]

theorem class_found_on_shelf :
    ∃ found : List (List String),
      classSourcesAt shelf [] (Path.ofText "src") "User" =
        .ok (found.map fun parts => (Path.ofText "src").join ⟨0,parts⟩) ∧
      found.Pairwise (· < ·) ∧ ["a","SuperUser.java"] ∈ found ∧ ["build","User.java"] ∉ found ∧
      ["Users.java"] ∉ found := by
  have short : ∀ parts ∈ shelf.below ["src"],
      ((Path.ofText "src").join ⟨0,parts⟩).text.utf8ByteSize ≤ Disk.pathLimit := by decide +kernel
  have oneLine : ∀ parts ∈ shelf.below ["src"], '\n' ∉ (Path.mk 0 parts).name.toList := by
    decide +kernel
  obtain ⟨found,run,strict,_,each⟩ := @class_found_among_first shelf [] ["src"] (Path.ofText "src")
    "User" (by decide +kernel) (by decide +kernel) short oneLine (by decide)
  have all := each (by decide +kernel)
  refine ⟨found,run,strict,
    (all _).mpr ⟨by decide,⟨[],by decide +kernel,by decide⟩,by decide +kernel,?_⟩,
    fun member => ?_,fun member => ?_⟩
  · exact List.isSuffixOf_iff_suffix.mp (by decide +kernel)
  · have kept := ((all _).mp member).kept
    revert kept
    decide +kernel
  · have named := List.isSuffixOf_iff_suffix.mpr ((all _).mp member).named
    revert named
    decide +kernel

section Crowd

theorem join_single (name : String) : Text.join "/" [name] = name := by
  rw [Text.join,List.map_singleton,List.intercalate_singleton,String.ofList_toList]

/-- A name without slashes lies in no directory, so in none that is skipped. -/
theorem isSkipped_name {name : String} (solid : ∀ c ∈ name.toList, c ≠ '/' ∧ c ≠ '\\') :
    isSkipped name = false := by
  have marked : ∀ directory ∈ skipped, '/' ∈ directory.toList := by decide +kernel
  have same : (name.toList.map fun c => if c == '\\' then '/' else c) = name.toList := by
    refine (List.map_congr_left ?_).trans (List.map_id _)
    intro c member
    simp [(solid c member).2]
  rw [isSkipped,same,List.any_eq_false]
  intro directory member found
  have slash : '/' ∈ name.toList := by
    rcases Bool.or_eq_true _ _ |>.mp found with begins | occurs
    · exact (List.isPrefixOf_iff_prefix.mp begins).subset (marked directory member)
    · exact Text.mem_of_occursIn occurs '/' List.mem_cons_self
  exact (solid '/' slash).1 rfl

/-- The name of one file among many. -/
def filler (i : Nat) : String := String.ofList ('a' :: (Nat.toDigits 10 i ++ ".java".toList))

theorem toList_filler (i : Nat) :
    (filler i).toList = 'a' :: (Nat.toDigits 10 i ++ ".java".toList) := String.toList_ofList

theorem filler_injective {i j : Nat} (same : filler i = filler j) : i = j := by
  have chars := congrArg String.toList same
  rw [toList_filler,toList_filler] at chars
  have digits := List.append_cancel_right (List.cons.inj chars).2
  rw [← Nat.ofDigitChars_ten_toDigits (n := i),digits,Nat.ofDigitChars_ten_toDigits]

theorem filler_lt (i : Nat) : filler i < "zT.java" := by
  rw [String.lt_iff_toList_lt,toList_filler]
  exact List.Lex.rel (by decide)

def crowdedEntries : List (Place × Node) :=
  (["src"],.directory) :: (["src","zT.java"],.file []) ::
    (List.range 5000).map fun i => (["src",filler i],.file [])

theorem keys_crowded : crowdedEntries.map Prod.fst =
    ["src"] :: ["src","zT.java"] :: (List.range 5000).map fun i => ["src",filler i] := by
  rw [crowdedEntries,List.map_cons,List.map_cons,List.map_map]
  rfl

theorem nodup_crowded : (crowdedEntries.map Prod.fst).Nodup := by
  rw [keys_crowded,List.nodup_cons,List.nodup_cons]
  refine ⟨?_,?_,List.Nodup.map ?_ List.nodup_range⟩
  · simp
  · simp only [List.mem_map,List.cons.injEq,true_and,and_true,not_exists,not_and]
    intro i _ same
    exact absurd same (ne_of_lt (filler_lt i))
  · intro i j same
    exact filler_injective (List.cons.inj (List.cons.inj same).2).1

/-- Five thousand files and a class that comes after them. -/
def crowded : Disk := ⟨⟨crowdedEntries,nodup_crowded⟩⟩

theorem node_crowded {place : Place} {node : Node} (given : place ≠ []) :
    crowded.node? place = some node ↔ (place,node) ∈ crowdedEntries := by
  rw [Disk.node?,if_neg (by simpa using given)]
  exact OrderedMap.get?_eq_some

theorem below_crowded {parts : List String} (member : parts ∈ crowded.below ["src"]) :
    parts = ["zT.java"] ∨ ∃ i < 5000, parts = [filler i] := by
  obtain ⟨given,there⟩ := Disk.mem_below.mp member
  obtain ⟨node,found⟩ := Option.ne_none_iff_exists'.mp there
  rw [node_crowded (by simp)] at found
  have key := List.mem_map_of_mem (f := Prod.fst) found
  rw [keys_crowded] at key
  simpa [given,eq_comm] using key

theorem mem_crowded {i : Nat} (few : i < 5000) : [filler i] ∈ allSources crowded ["src"] := by
  have ending : ∀ c ∈ ".java".toList, c ≠ '/' ∧ c ≠ '\\' := by decide
  have solid : ∀ c ∈ (filler i).toList, c ≠ '/' ∧ c ≠ '\\' := by
    rw [toList_filler,List.forall_mem_cons,List.forall_mem_append]
    refine ⟨by decide,?_,ending⟩
    intro c member
    have digit := Nat.isDigit_of_mem_toDigits (by omega) (by omega) member
    constructor <;> (rintro rfl; cases digit)
  have node : crowded.node? (["src"] ++ [filler i]) = some (.file []) := by
    rw [node_crowded (by simp)]
    refine List.mem_cons_of_mem _ (List.mem_cons_of_mem _ ?_)
    exact List.mem_map.mpr ⟨i,List.mem_range.mpr few,rfl⟩
  have suffix : Path.suffix (filler i) = ".java" :=
    suffix_of_java (List.cons_ne_nil _ _) (toList_filler i)
  refine mem_allSources.mpr ⟨[],Disk.mem_filesBelow.mpr ⟨List.cons_ne_nil _ _,node⟩,?_⟩
  rw [isSource,join_single,isSkipped_name solid,List.getLast?_singleton,Option.getD_some,suffix]
  rfl

theorem count_crowded : 5000 ≤ (allSources crowded ["src"]).countP (· < ["zT.java"]) := by
  have fillers : ((List.range 5000).map fun i => [filler i]).Nodup := by
    apply List.Nodup.map _ List.nodup_range
    intro i j same
    exact filler_injective (List.cons.inj same).1
  have among : (List.range 5000).map (fun i => [filler i]) ⊆
      (allSources crowded ["src"]).filter (· < ["zT.java"]) := by
    intro parts member
    obtain ⟨i,few,rfl⟩ := List.mem_map.mp member
    rw [List.mem_filter,decide_eq_true_eq]
    exact ⟨mem_crowded (List.mem_range.mp few),List.cons_lt_cons_iff.mpr (.inl (filler_lt i))⟩
  have fits := (List.subperm_of_subset fillers among).length_le
  rwa [List.length_map,List.length_range,← List.countP_eq_length_filter] at fits

theorem utf8Len_le (chars : List Char) : String.utf8Len chars ≤ 4 * chars.length := by
  induction chars with
  | nil => exact Nat.le_refl 0
  | cons c chars ih =>
    have size := c.utf8Size_le_four
    rw [String.utf8Len_cons,List.length_cons]
    omega

theorem short_crowded (parts : List String) (member : parts ∈ crowded.below ["src"]) :
    ((Path.ofText "src").join ⟨0,parts⟩).text.utf8ByteSize ≤ Disk.pathLimit := by
  have whole (name : String) : ((Path.ofText "src").join ⟨0,[name]⟩).text.utf8ByteSize =
      4 + name.utf8ByteSize := by
    have shape : (Path.ofText "src").join ⟨0,[name]⟩ = Path.mk 0 (["src"] ++ [name]) := rfl
    rw [shape,Path.text_append (List.cons_ne_nil _ _),join_single,String.utf8ByteSize_append]
    rfl
  rcases below_crowded member with rfl | ⟨i,few,rfl⟩
  · rw [whole]
    decide
  · have digits : (Nat.toDigits 10 i).length ≤ 4 :=
      (Nat.length_toDigits_le_iff (by omega) (by omega)).mpr (by omega)
    have small := utf8Len_le ('a' :: (Nat.toDigits 10 i ++ ".java".toList))
    have ending : ".java".toList.length = 5 := by decide
    rw [List.length_cons,List.length_append,ending] at small
    rw [whole,filler,String.utf8ByteSize_ofList,Disk.pathLimit]
    omega

/-- A file of the class is lost if too many sources come before it. -/
theorem class_lost_in_crowd :
    IsClassFile crowded ["src"] "T" ["zT.java"] ∧
      classSourcesAt crowded [] (Path.ofText "src") "T" = .ok [] := by
  have reached : crowded.locate [] (Path.ofText "src") = .ok ["src"] := by rfl
  have directory : crowded.node? ["src"] = some .directory := by rfl
  have last : crowded.node? ["src","zT.java"] = some (.file []) := by
    rw [node_crowded (by simp)]
    exact List.mem_cons_of_mem _ List.mem_cons_self
  refine ⟨⟨List.cons_ne_nil _ _,⟨[],last,Nat.zero_le _⟩,by decide +kernel,['z'],by decide⟩,?_⟩
  have missing : ofClass crowded ["src"] "T" = [] := by
    rw [List.eq_nil_iff_forall_not_mem]
    intro parts member
    rw [ofClass,List.mem_filter,mem_relative_iff] at member
    obtain ⟨⟨source,few⟩,belongs⟩ := member
    obtain ⟨bytes,file,_⟩ := mem_allSources.mp source
    obtain ⟨given,node⟩ := Disk.mem_filesBelow.mp file
    have below := Disk.mem_below.mpr ⟨given,by rw [node]; exact Option.some_ne_none _⟩
    rcases below_crowded below with rfl | ⟨i,_,rfl⟩
    · exact absurd few (Nat.not_lt_of_le count_crowded)
    · rw [belongsTo,Bool.and_eq_true,List.isSuffixOf_iff_suffix] at belongs
      obtain ⟨front,chars⟩ := belongs.1
      have name : (Path.mk 0 [filler i]).name.toList =
          'a' :: (Nat.toDigits 10 i ++ ".java".toList) := toList_filler i
      rw [name,← List.append_assoc,← List.cons_append] at chars
      have mark : 'T' ∈ 'a' :: Nat.toDigits 10 i := by
        rw [← List.append_cancel_right chars]
        exact List.mem_append_right _ (by decide)
      have digit := Nat.isDigit_of_mem_toDigits (by omega) (by omega)
        ((List.mem_cons.mp mark).resolve_left (by decide))
      cases digit
  rw [classSourcesAt_eq reached directory short_crowded,missing]
  rfl

end Crowd

end JavaAtlas.Discovery
