import JavaAtlas.Proofs.Slots
import JavaAtlas.Proofs.Twins
import JavaAtlas.Proofs.Words
import Mathlib.Data.List.Lex
import Mathlib.Data.List.Nodup

/-! Sources of a folder, whichever path leads to it. They are found by the parts that lead to them
from the folder, which a path to the folder and a disk that has grown leave as they are. -/
namespace JavaAtlas

namespace Path

/-- What stands before the last parts of a path that is written out. -/
def lead (slashes : Nat) (above : List String) : List Char :=
  List.replicate slashes '/' ++ above.flatMap fun part => part.toList ++ ['/']

theorem text_append {parts : List String} (given : parts ≠ []) (slashes : Nat)
    (above : List String) :
    (Path.mk slashes (above ++ parts)).text =
      String.ofList (lead slashes above) ++ Text.join "/" parts := by
  have joined : Text.join "/" (above ++ parts) =
      String.ofList (above.flatMap fun part => part.toList ++ ['/']) ++ Text.join "/" parts := by
    induction above with
    | nil => rfl
    | cons part above ih =>
      obtain ⟨next,rest,shape⟩ := List.exists_cons_of_ne_nil
        (List.append_ne_nil_of_right_ne_nil above given)
      rw [Text.join,shape,List.map_cons] at ih
      rw [List.cons_append,Text.join,shape,List.map_cons,List.map_cons,List.intercalate_cons_cons,
        String.ofList_append,String.ofList_append,ih,List.flatMap_cons,String.ofList_append,
        String.ofList_append]
      simp only [String.append_assoc]
      rfl
  have more : (slashes == 0 && (above ++ parts).isEmpty) = false := by simp [given]
  rw [text,more,if_neg Bool.false_ne_true,joined,lead,String.ofList_append,String.append_assoc]

theorem text_parts {parts : List String} (given : parts ≠ []) :
    (Path.mk 0 parts).text = Text.join "/" parts := by
  have whole := text_append given 0 []
  rwa [List.nil_append] at whole

/-- A relative path is no longer than one that ends in its parts. -/
theorem size_le {parts : List String} (given : parts ≠ []) (slashes : Nat) (above : List String) :
    (Path.mk 0 parts).text.utf8ByteSize ≤ (Path.mk slashes (above ++ parts)).text.utf8ByteSize := by
  rw [text_append given,text_parts given,String.utf8ByteSize_append]
  exact Nat.le_add_left _ _

theorem afterLast_lead (slashes : Nat) (above : List String) (text : List Char) :
    Text.afterLast '/' (lead slashes above ++ text) = Text.afterLast '/' text := by
  rw [lead,List.append_assoc]
  induction slashes with
  | zero =>
    induction above with
    | nil => rfl
    | cons part above ih =>
      rw [List.flatMap_cons,List.append_assoc,List.append_assoc,List.singleton_append]
      exact (Text.afterLast_append '/' part.toList _).trans ih
  | succ slashes ih =>
    rw [List.replicate_succ]
    exact (Text.afterLast_append '/' [] _).trans ih

/-- The name of a unit comes from the last part of its path. -/
theorem unitName_text (slashes : Nat) (above : List String) (last : String) :
    unitName (Path.mk slashes (above ++ [last])).text = unitName last := by
  have single : (Text.join "/" [last]).toList = last.toList := by simp [Text.join]
  rw [unitName,unitName,text_append (List.cons_ne_nil _ _),String.toList_append,
    String.toList_ofList,afterLast_lead,single]

end Path

namespace Disk
variable {disk next : Disk} {here place last : Place} {path : Path} {parts : List String}
  {bytes : List UInt8} {kept : Place → Prop}

/-- Whatever lies on the disk is reached by the names that lead to it. -/
def Whole (disk : Disk) : Prop :=
  ∀ place, disk.node? place ≠ none → disk.walk [] place = .ok place

theorem Whole.walk_below (whole : disk.Whole) (directory : disk.node? place ≠ none)
    (there : disk.node? (place ++ parts) ≠ none) :
    disk.walk place parts = .ok (place ++ parts) := by
  obtain ⟨middle,first,rest⟩ := walk_append_iff.mp (whole _ there)
  rw [whole place directory] at first
  cases first
  exact rest

theorem isBelow_iff {other : Place} :
    (place.isPrefixOf other && place.length < other.length) = true ↔
      ∃ parts, parts ≠ [] ∧ other = place ++ parts := by
  rw [Bool.and_eq_true,List.isPrefixOf_iff_prefix,decide_eq_true_eq]
  constructor
  · rintro ⟨⟨parts,rfl⟩,longer⟩
    refine ⟨parts,?_,rfl⟩
    rintro rfl
    simp at longer
  · rintro ⟨parts,given,rfl⟩
    have longer := List.length_pos_iff.mpr given
    exact ⟨List.prefix_append _ _,by simp [longer]⟩

theorem node?_below (given : parts ≠ []) :
    disk.node? (place ++ parts) = disk.nodes.get? (place ++ parts) := by
  rw [node?,if_neg (by simp [given])]

/-- What `filesBelow` makes of one entry. -/
def fileBelow? (place : Place) (entry : Place × Node) : Option (List String × List UInt8) :=
  match entry.2 with
  | .file bytes =>
    if place.isPrefixOf entry.1 && place.length < entry.1.length then
      some (entry.1.drop place.length,bytes)
    else none
  | .directory => none

theorem fileBelow?_eq_some {entry : Place × Node} : fileBelow? place entry = some (parts,bytes) ↔
    parts ≠ [] ∧ entry = (place ++ parts,.file bytes) := by
  obtain ⟨other,node⟩ := entry
  cases node with
  | directory => simp [fileBelow?]
  | file content =>
    rw [fileBelow?]
    dsimp only
    split
    · next inside =>
      obtain ⟨rest,given,rfl⟩ := isBelow_iff.mp inside
      rw [List.drop_left]
      constructor
      · rintro ⟨⟩
        exact ⟨given,rfl⟩
      · rintro ⟨_,same⟩
        obtain ⟨whole,node⟩ := Prod.mk.inj same
        cases node
        rw [List.append_cancel_left whole]
    · next outside =>
      refine iff_of_false nofun ?_
      rintro ⟨given,same⟩
      exact outside (isBelow_iff.mpr ⟨parts,given,(Prod.mk.inj same).1⟩)

theorem filesBelow_eq (disk : Disk) (place : Place) :
    disk.filesBelow place = disk.nodes.entries.filterMap (fileBelow? place) := rfl

theorem mem_filesBelow : (parts,bytes) ∈ disk.filesBelow place ↔
    parts ≠ [] ∧ disk.node? (place ++ parts) = some (.file bytes) := by
  rw [filesBelow_eq,List.mem_filterMap]
  constructor
  · rintro ⟨entry,member,found⟩
    obtain ⟨given,rfl⟩ := fileBelow?_eq_some.mp found
    refine ⟨given,?_⟩
    rw [node?_below given]
    exact OrderedMap.get?_eq_some.mpr member
  · rintro ⟨given,node⟩
    rw [node?_below given] at node
    exact ⟨_,OrderedMap.get?_eq_some.mp node,fileBelow?_eq_some.mpr ⟨given,rfl⟩⟩

theorem nodup_filesBelow (disk : Disk) (place : Place) : (disk.filesBelow place).Nodup := by
  rw [filesBelow_eq]
  refine List.Nodup.filterMap ?_ (List.Nodup.of_map _ disk.nodes.distinct)
  intro one two file first second
  rw [(fileBelow?_eq_some.mp first).2,(fileBelow?_eq_some.mp second).2]

theorem mem_below : parts ∈ disk.below place ↔
    parts ≠ [] ∧ disk.node? (place ++ parts) ≠ none := by
  rw [below,List.mem_filterMap]
  constructor
  · rintro ⟨⟨other,node⟩,member,found⟩
    split at found
    · next inside =>
      obtain ⟨rest,given,rfl⟩ := isBelow_iff.mp inside
      rw [List.drop_left] at found
      cases found
      refine ⟨given,?_⟩
      rw [node?_below given,OrderedMap.get?_eq_some.mpr member]
      exact Option.some_ne_none node
    · cases found
  · rintro ⟨given,there⟩
    rw [node?_below given] at there
    obtain ⟨node,found⟩ := Option.ne_none_iff_exists'.mp there
    refine ⟨_,OrderedMap.get?_eq_some.mp found,?_⟩
    rw [if_pos (isBelow_iff.mpr ⟨parts,given,rfl⟩),List.drop_left]

/-- What is read below a place does not depend on the path that leads there. -/
theorem read_below (reached : disk.locate here path = .ok place)
    (fits : (path.join ⟨0,parts⟩).text.utf8ByteSize ≤ pathLimit)
    (walked : disk.walk place parts = .ok last) (node : disk.node? last = some (.file bytes)) :
    (disk.read here (path.join ⟨0,parts⟩)).toOption =
      if (Path.mk 0 parts).hasNull then none else some bytes := by
  obtain ⟨clean,_,walk⟩ := locate_iff.mp reached
  have null : (path.join ⟨0,parts⟩).hasNull = (Path.mk 0 parts).hasNull := by
    rw [Path.hasNull_join,clean,Bool.false_or]
  split
  · next bad =>
    rw [read,locate,null,if_pos bad]
    rfl
  · next good =>
    have here : disk.read here (path.join ⟨0,parts⟩) = .ok bytes := by
      refine read_iff.mpr ⟨last,locate_iff.mpr ⟨?_,fits,?_⟩,node⟩
      · rw [null,Bool.eq_false_iff]
        exact good
      · exact walk_append_iff.mpr ⟨place,walk,walked⟩
    rw [here]
    rfl

end Disk

namespace Discovery
variable {disk before after : Disk} {here place : Place} {folder : Path} {maxFiles maxSize : Int}
  {parts : List String}

theorem comesBefore_iff {first second : List String} :
    comesBefore first second = true ↔ first ≤ second := by
  rw [le_iff_lt_or_eq]
  induction first generalizing second with
  | nil => cases second <;> simp [comesBefore]
  | cons part first ih =>
    cases second with
    | nil => simp [comesBefore]
    | cons other second =>
      rw [comesBefore,List.cons_lt_cons_iff,List.cons.injEq]
      by_cases same : part = other
      · simp [same,ih]
      · simp [same,le_iff_lt_or_eq]

theorem mergeSort_eq_of_perm {found others : List (List String)} (perm : found.Perm others) :
    found.mergeSort comesBefore = others.mergeSort comesBefore := by
  have ordered (found : List (List String)) : (found.mergeSort comesBefore).Pairwise
      fun first second => comesBefore first second = true := by
    apply List.pairwise_mergeSort
    · intro first second third
      simpa only [comesBefore_iff] using le_trans
    · intro first second
      simpa only [Bool.or_eq_true,comesBefore_iff] using le_total first second
  refine List.Perm.eq_of_pairwise ?_ (ordered found) (ordered others)
    ((List.mergeSort_perm found _).trans (perm.trans (List.mergeSort_perm others _).symm))
  intro one two _ _ below above
  exact le_antisymm (comesBefore_iff.mp below) (comesBefore_iff.mp above)

/-- The sources below a place, by the parts that lead to them from there. -/
def relative (disk : Disk) (place : Place) (maxFiles maxSize : Int) : List (List String) :=
  let found := ((disk.filesBelow place).filter (isSource maxSize)).map Prod.fst
  let sorted := found.mergeSort comesBefore
  if maxFiles < sorted.length then takeUpTo maxFiles sorted else sorted

theorem sources_relative (reached : disk.locate here folder = .ok place)
    (directory : disk.node? place = some .directory) :
    sources disk here folder maxFiles maxSize =
      (relative disk place maxFiles maxSize).map fun parts => folder.join ⟨0,parts⟩ := by
  rw [sources,reached]
  dsimp only
  rw [if_pos (by rw [directory]; rfl),relative]

theorem mem_relative (member : parts ∈ relative disk place maxFiles maxSize) :
    ∃ bytes, (parts,bytes) ∈ disk.filesBelow place ∧ isSource maxSize (parts,bytes) = true := by
  have sublist (sorted : List (List String)) : (takeUpTo maxFiles sorted).Sublist sorted := by
    rw [takeUpTo]
    split <;> exact List.take_sublist _ _
  have found : parts ∈ (((disk.filesBelow place).filter (isSource maxSize)).map Prod.fst).mergeSort
      comesBefore := by
    rw [relative] at member
    split at member
    · exact (sublist _).mem member
    · exact member
  obtain ⟨⟨_,bytes⟩,file,rfl⟩ := List.mem_map.mp (List.mem_mergeSort.mp found)
  exact ⟨bytes,List.mem_filter.mp file⟩

/-- Whether a place has the name of a source. -/
def IsSource (place : Place) : Prop :=
  ∃ above name, place = above ++ [name] ∧ (languageOf? (Path.suffix name)).isSome = true

theorem isSource_place {bytes : List UInt8} (given : parts ≠ [])
    (source : isSource maxSize (parts,bytes) = true) (place : Place) : IsSource (place ++ parts) := by
  obtain ⟨above,last,rfl⟩ := (List.eq_nil_or_concat' parts).resolve_left given
  rw [isSource,Bool.and_eq_true,Bool.and_eq_true] at source
  refine ⟨place ++ above,last,(List.append_assoc _ _ _).symm,?_⟩
  simpa using source.1.2

/-- A disk that has grown without new sources has the same sources. -/
theorem relative_of_keeps (keeps : before.Keeps IsSource after) :
    relative after place maxFiles maxSize = relative before place maxFiles maxSize := by
  have perm : ((after.filesBelow place).filter (isSource maxSize)).Perm
      ((before.filesBelow place).filter (isSource maxSize)) := by
    rw [List.perm_ext_iff_of_nodup ((Disk.nodup_filesBelow after place).filter _)
      ((Disk.nodup_filesBelow before place).filter _)]
    rintro ⟨parts,bytes⟩
    rw [List.mem_filter,List.mem_filter,Disk.mem_filesBelow,Disk.mem_filesBelow]
    refine and_congr_left fun source => and_congr_right fun given => ?_
    have kept := isSource_place given source place
    refine ⟨?_,keeps.file kept⟩
    intro node
    rcases keeps.nodes _ kept with same | ⟨_,made⟩
    · rw [← same,node]
    · rw [node] at made
      cases made
  rw [relative,relative,mergeSort_eq_of_perm (perm.map Prod.fst)]

end Discovery

namespace Analysis
variable {disk other : Disk} {here there : Place} {first second : Model}

/-- What a file holds, from wherever it is read, if it can be read. -/
def gist (disk : Disk) (here : Place) (path : Path) : Option (Option Extraction) :=
  (readSource disk here path).toOption.map (Option.map Extraction.unplaced)

theorem unplaced_ofText (content : List Char) {file place : String}
    (same : unitName file = unitName place) :
    (Extraction.ofText content file).unplaced = (Extraction.ofText content place).unplaced := by
  rw [Extraction.ofText,Extraction.ofText,same]
  rfl

theorem gist_eq {path twin : Path} (name : path.name = twin.name)
    (unit : unitName path.text = unitName twin.text)
    (same : (disk.read here path).toOption = (other.read there twin).toOption) :
    gist disk here path = gist other there twin := by
  have read (content : List Char) (language : String) :
      (Extraction.read? content path.text language).map Extraction.unplaced =
        (Extraction.read? content twin.text language).map Extraction.unplaced := by
    rw [Extraction.read?,Extraction.read?]
    split
    · exact congrArg some (unplaced_ofText content unit)
    · rfl
  have mapped {α β : Type} (result : Except Disk.Fault α) (f : α → β) :
      (result.map f).toOption = result.toOption.map f := by
    cases result <;> rfl
  rw [gist,gist,readSource,readSource,mapped,mapped,same,name,Option.map_map,Option.map_map]
  apply Option.map_congr
  intro bytes _
  rw [Function.comp_apply,Function.comp_apply,Option.map_bind,Option.map_bind]
  apply Option.bind_congr
  intro language _
  exact read _ language

theorem twins_merge (twins : first.Twins second) (isOpen : first.resolved = false)
    {path twin : Path} (same : gist disk here path = gist other there twin) :
    (merge disk here first path).Twins (merge other there second twin) ∧
      (merge disk here first path).resolved = false := by
  rw [gist,gist] at same
  rw [merge,merge]
  cases one : readSource disk here path with
  | error fault =>
    rw [one] at same
    cases two : readSource other there twin with
    | error other => exact ⟨twins.warn _ _,isOpen⟩
    | ok held =>
      rw [two] at same
      cases same
  | ok held =>
    rw [one] at same
    cases two : readSource other there twin with
    | error other =>
      rw [two] at same
      cases same
    | ok found =>
      rw [two] at same
      have alike := Option.some.inj same
      cases held with
      | none =>
        rw [Option.map_eq_none_iff.mp alike.symm]
        exact ⟨twins,isOpen⟩
      | some extraction =>
        rw [Option.map_some] at alike
        obtain ⟨copy,rfl,copied⟩ := Option.map_eq_some_iff.mp alike.symm
        obtain ⟨left,right,taken,added,also,grown⟩ := twins.add isOpen copied.symm
        obtain ⟨next,_,again,stays⟩ := Model.add_open isOpen extraction
        rw [added] at again
        cases again
        dsimp only
        rw [added,also]
        exact ⟨grown,stays.isOpen⟩

/-- Files that hold the same make models that differ in the files of their units alone. -/
theorem twins_ofFiles {α : Type} {items : List α} {path twin : α → Path}
    (same : ∀ item ∈ items, gist disk here (path item) = gist other there (twin item)) :
    (ofFiles disk here (items.map path)).Twins (ofFiles other there (items.map twin)) := by
  have merged : ((items.map path).foldl (merge disk here) {}).Twins
      ((items.map twin).foldl (merge other there) {}) ∧
      ((items.map path).foldl (merge disk here) {}).resolved = false := by
    rw [List.foldl_map,List.foldl_map]
    refine List.foldl_rel (r := fun one two => Model.Twins one two ∧ one.resolved = false)
      ⟨.refl _,rfl⟩ ?_
    rintro item member one two ⟨twins,isOpen⟩
    exact twins_merge twins isOpen (same item member)
  rw [ofFiles_eq,ofFiles_eq]
  exact merged.1.related (merged_open disk here _).1.coherent (merged_open other there _).1.coherent

end Analysis

/-- The path leads to a directory at the place, and nothing below is too deep to be looked at. -/
structure World.Sees (world : World) (folder : Path) (place : Place) : Prop where
  reached : world.disk.locate world.here folder = .ok place
  directory : world.disk.node? place = some .directory
  looked : Discovery.lookThrough world.disk world.here folder = .ok ()

theorem Discovery.lookThrough_iff {disk : Disk} {here place : Place} {folder : Path}
    (reached : disk.locate here folder = .ok place) : lookThrough disk here folder = .ok () ↔
      ∀ parts ∈ disk.below place,
        (folder.join ⟨0,parts⟩).text.utf8ByteSize ≤ Disk.pathLimit := by
  have found : disk.find? here folder = .ok (disk.node? place) := by
    rw [Disk.find?,reached]
  have passed (next : Unit → Except Disk.Fault Unit) :
      (discard (Except.ok (disk.node? place) : Except Disk.Fault _) >>= next) = next () := rfl
  rw [lookThrough,found,passed,reached]
  dsimp only
  split
  · next path long =>
    refine iff_of_false (by rintro ⟨⟩) ?_
    intro fits
    obtain ⟨parts,member,rfl⟩ := List.mem_map.mp (List.mem_of_find?_eq_some long)
    have longer := List.find?_some long
    rw [decide_eq_true_eq] at longer
    exact absurd (fits parts member) (Nat.not_le.mpr longer)
  · next short =>
    refine iff_of_true rfl ?_
    intro parts member
    have fits := List.find?_eq_none.mp short _ (List.mem_map_of_mem member)
    rw [decide_eq_true_eq] at fits
    exact Nat.le_of_not_lt fits

namespace Query
variable {world start : World} {folder other : Path} {place : Place}

/-- The sources that are analysed, by the parts that lead to them from the folder. -/
def relativeFor (world : World) (place : Place) (specificClass : Option String) :
    List (List String) :=
  match specificClass.filter fun name => !name.isEmpty with
  | some name =>
    (Discovery.relative world.disk place Discovery.defaultMaxFiles
      Discovery.defaultMaxSize).filter fun parts => Discovery.belongsTo name (Path.mk 0 parts).name
  | none =>
    Discovery.relative world.disk place world.settings.maxFiles Discovery.defaultMaxSize

theorem mem_relativeFor {specificClass : Option String} {parts : List String}
    (member : parts ∈ relativeFor world place specificClass) :
    ∃ bytes, parts ≠ [] ∧ world.disk.node? (place ++ parts) = some (.file bytes) ∧
      Discovery.IsSource (place ++ parts) := by
  have relative : ∃ maxFiles maxSize,
      parts ∈ Discovery.relative world.disk place maxFiles maxSize := by
    rw [relativeFor] at member
    split at member
    · exact ⟨_,_,(List.mem_filter.mp member).1⟩
    · exact ⟨_,_,member⟩
  obtain ⟨maxFiles,maxSize,member⟩ := relative
  obtain ⟨bytes,file,source⟩ := Discovery.mem_relative member
  obtain ⟨given,node⟩ := Disk.mem_filesBelow.mp file
  exact ⟨bytes,given,node,Discovery.isSource_place given source place⟩

theorem name_join {parts : List String} (given : parts ≠ []) (folder : Path) :
    (folder.join ⟨0,parts⟩).name = (Path.mk 0 parts).name := by
  change ((folder.parts ++ parts).getLast?).getD "" = parts.getLast?.getD ""
  rw [List.getLast?_append_of_ne_nil _ given]

theorem sourcesFor_relative (sees : world.Sees folder place) (specificClass : Option String) :
    sourcesFor world folder specificClass =
      (relativeFor world place specificClass).map fun parts => folder.join ⟨0,parts⟩ := by
  rw [sourcesFor,relativeFor]
  cases specificClass.filter fun name => !name.isEmpty with
  | none => exact Discovery.sources_relative sees.reached sees.directory
  | some name =>
    dsimp only
    rw [Discovery.classSources,Discovery.sources_relative sees.reached sees.directory,
      List.filter_map]
    congr 1
    apply List.filter_congr
    intro parts member
    obtain ⟨bytes,file,_⟩ := Discovery.mem_relative member
    exact congrArg (Discovery.belongsTo name) (name_join (Disk.mem_filesBelow.mp file).1 folder)

theorem relativeFor_of_keeps (keeps : world.Keeps Discovery.IsSource start) (place : Place)
    (specificClass : Option String) :
    relativeFor start place specificClass = relativeFor world place specificClass := by
  rw [relativeFor,relativeFor]
  simp only [Discovery.relative_of_keeps keeps.disk,keeps.settings]

/-- Whichever path leads to the folder, and whatever was written beside its sources, their models
differ in the files of their units alone. -/
theorem twins_sourcesFor (whole : world.disk.Whole)
    (keeps : world.Keeps Discovery.IsSource start) (first : world.Sees folder place)
    (second : start.Sees other place) (specificClass : Option String) :
    (Analysis.ofFiles world.disk world.here (sourcesFor world folder specificClass)).Twins
      (Analysis.ofFiles start.disk start.here (sourcesFor start other specificClass)) := by
  rw [sourcesFor_relative first,sourcesFor_relative second,relativeFor_of_keeps keeps]
  apply Analysis.twins_ofFiles
  intro parts member
  obtain ⟨bytes,given,node,source⟩ := mem_relativeFor member
  have there : world.disk.node? place ≠ none := by
    rw [first.directory]
    exact Option.some_ne_none _
  have walked := whole.walk_below there (by rw [node]; exact Option.some_ne_none _)
  have kept := keeps.disk.file source node
  have inside {world : World} {folder : Path} (sees : world.Sees folder place)
      (node : world.disk.node? (place ++ parts) = some (.file bytes)) :
      (folder.join ⟨0,parts⟩).text.utf8ByteSize ≤ Disk.pathLimit := by
    refine (Discovery.lookThrough_iff sees.reached).mp sees.looked parts ?_
    exact Disk.mem_below.mpr ⟨given,by rw [node]; exact Option.some_ne_none _⟩
  obtain ⟨above,last,rfl⟩ := (List.eq_nil_or_concat' parts).resolve_left given
  apply Analysis.gist_eq
  · rw [name_join given,name_join given]
  · change unitName (Path.mk folder.slashes (folder.parts ++ (above ++ [last]))).text =
      unitName (Path.mk other.slashes (other.parts ++ (above ++ [last]))).text
    rw [← List.append_assoc,← List.append_assoc,Path.unitName_text,Path.unitName_text]
  · rw [Disk.read_below first.reached (inside first node) walked node,
      Disk.read_below second.reached (inside second kept) (keeps.disk.walk walked) kept]

end Query

end JavaAtlas
