import JavaAtlas.Disk.Basic
import Mathlib.Order.Defs.Unbundled

/-! Disks that grow. No operation of an analysis takes a directory away, so that a path that leads
somewhere goes on to lead there; and where a path leads is told by its text alone. -/
namespace JavaAtlas

/-- Where one part of a path leads. -/
def Place.step (place : Place) (part : String) : Place :=
  if part == ".." then place.dropLast else place ++ [part]

theorem Place.step_of_ne {part : String} (named : part ≠ "..") (place : Place) :
    place.step part = place ++ [part] := by
  rw [step,if_neg (by simpa using named)]

/-- Parts without a step to a parent lead down. -/
theorem Place.foldl_step {parts : List String} (down : ".." ∉ parts) (start : Place) :
    parts.foldl step start = start ++ parts := by
  induction parts generalizing start with
  | nil => exact (List.append_nil start).symm
  | cons part rest ih =>
    rw [List.mem_cons,not_or] at down
    rw [List.foldl_cons,step_of_ne (Ne.symm down.1),ih down.2,List.append_assoc]
    rfl

theorem Path.place_join (here : Place) (path : Path) (parts : List String) :
    (path.join ⟨0,parts⟩).place here = parts.foldl Place.step (path.place here) :=
  List.foldl_append

theorem Path.join_nil (path : Path) : path.join ⟨0,[]⟩ = path :=
  congrArg (Path.mk path.slashes) (List.append_nil _)

theorem Path.join_join (path : Path) (first second : List String) :
    (path.join ⟨0,first⟩).join ⟨0,second⟩ = path.join ⟨0,first ++ second⟩ :=
  congrArg (Path.mk path.slashes) (List.append_assoc _ _ _)

theorem Path.hasNull_join (path : Path) (parts : List String) :
    (path.join ⟨0,parts⟩).hasNull = (path.hasNull || (Path.mk 0 parts).hasNull) :=
  List.any_append

theorem Path.place_of_last {path : Path} {above : List String} {last : String}
    (parts : path.parts = above ++ [last]) (named : last ≠ "..") (here : Place) :
    path.place here = (Path.mk path.slashes above).place here ++ [last] := by
  rw [place,parts,List.foldl_append]
  exact Place.step_of_ne named _

namespace Disk
variable {disk next before after : Disk} {here start place : Place} {path : Path}
  {parts : List String} {bytes : List UInt8} {kept : Place → Prop}

theorem walk_cons_iff {part : String} : disk.walk start (part :: parts) = .ok place ↔
    disk.node? start = some .directory ∧ (part = ".." ∨ part.utf8ByteSize ≤ nameLimit) ∧
      disk.walk (start.step part) parts = .ok place := by
  rw [walk,Place.step]
  cases disk.node? start with
  | none => simp
  | some found =>
    cases found with
    | file content => simp
    | directory =>
      by_cases above : part = ".."
      · simp [above]
      · by_cases long : nameLimit < part.utf8ByteSize
        · simp [above,long,Nat.not_le.mpr long]
        · simp [above,long,Nat.not_lt.mp long]

theorem walk_append_iff {rest : List String} : disk.walk start (parts ++ rest) = .ok place ↔
    ∃ middle, disk.walk start parts = .ok middle ∧ disk.walk middle rest = .ok place := by
  induction parts generalizing start with
  | nil => simp [walk]
  | cons part parts ih =>
    rw [List.cons_append,walk_cons_iff,ih]
    simp only [walk_cons_iff]
    constructor
    · rintro ⟨directory,short,middle,first,last⟩
      exact ⟨middle,⟨directory,short,first⟩,last⟩
    · rintro ⟨middle,⟨directory,short,first⟩,last⟩
      exact ⟨directory,short,middle,first,last⟩

theorem place_of_walk (reached : disk.walk start parts = .ok place) :
    place = parts.foldl Place.step start := by
  induction parts generalizing start with
  | nil => exact (Except.ok.inj reached).symm
  | cons part rest ih => exact ih (walk_cons_iff.mp reached).2.2

theorem locate_iff : disk.locate here path = .ok place ↔
    path.hasNull = false ∧ path.text.utf8ByteSize ≤ pathLimit ∧
      disk.walk (if path.slashes == 0 then here else []) path.parts = .ok place := by
  rw [locate]
  by_cases null : path.hasNull
  · simp [null]
  · by_cases long : pathLimit < path.text.utf8ByteSize
    · simp [null,long,Nat.not_le.mpr long]
    · simp [null,long,Nat.not_lt.mp long]

theorem place_of_locate (reached : disk.locate here path = .ok place) : place = path.place here :=
  place_of_walk (locate_iff.mp reached).2.2

def withFile (disk : Disk) (place : Place) (bytes : List UInt8) : Disk :=
  ⟨disk.nodes.insert place (.file bytes)⟩

theorem node?_withFile_of_ne {other : Place} (apart : other ≠ place) :
    (disk.withFile place bytes).node? other = disk.node? other := by
  rw [node?,node?,withFile,OrderedMap.get?_insert,if_neg apart]

theorem node?_withFile (inside : place ≠ []) :
    (disk.withFile place bytes).node? place = some (.file bytes) := by
  rw [node?,withFile,OrderedMap.get?_insert,if_pos rfl,if_neg (by simpa using inside)]

/-- A file is written where its path leads, unless that is a directory. -/
theorem write_iff : disk.write here path bytes = .ok next ↔
    ∃ place, disk.locate here path = .ok place ∧ disk.node? place ≠ some .directory ∧
      next = disk.withFile place bytes := by
  rw [write]
  cases disk.locate here path with
  | error cause => simp
  | ok place =>
    dsimp only
    split
    · next directory => simp [directory]
    · next outside =>
      constructor
      · rintro ⟨⟩
        exact ⟨place,rfl,outside,rfl⟩
      · rintro ⟨_,⟨⟩,_,rfl⟩
        rfl

theorem read_iff : disk.read here path = .ok bytes ↔
    ∃ place, disk.locate here path = .ok place ∧ disk.node? place = some (.file bytes) := by
  rw [read]
  cases disk.locate here path with
  | error cause => simp
  | ok place =>
    dsimp only
    cases node : disk.node? place with
    | none => simp [node]
    | some found => cases found <;> simp [node]

theorem find?_of_read (found : disk.read here path = .ok bytes) :
    disk.find? here path = .ok (some (.file bytes)) := by
  obtain ⟨place,reached,node⟩ := read_iff.mp found
  rw [find?,reached]
  dsimp only
  rw [node]

/-- The path leads to a directory. -/
def HasDirectory (disk : Disk) (here : Place) (path : Path) : Prop :=
  ∃ place, disk.locate here path = .ok place ∧ disk.node? place = some .directory

section Names
variable {name : String}

/-- The path leads to a directory at the place, however long it is when it is written out. -/
structure Enters (disk : Disk) (here : Place) (path : Path) (place : Place) : Prop where
  clean : path.hasNull = false
  walk : disk.walk (if path.slashes == 0 then here else []) path.parts = .ok place
  directory : disk.node? place = some .directory

theorem HasDirectory.enters (has : disk.HasDirectory here path) :
    disk.Enters here path (path.place here) := by
  obtain ⟨place,reached,directory⟩ := has
  obtain ⟨clean,_,walk⟩ := locate_iff.mp reached
  rw [← place_of_locate reached]
  exact ⟨clean,walk,directory⟩

theorem Enters.above (enters : disk.Enters here (path.join ⟨0,[name]⟩) place) :
    disk.Enters here path (path.place here) := by
  obtain ⟨clean,walk,_⟩ := enters
  obtain ⟨middle,first,last⟩ := walk_append_iff.mp walk
  have same : middle = path.place here := place_of_walk first
  rw [Path.hasNull_join,Bool.or_eq_false_iff] at clean
  exact ⟨clean.1,same ▸ first,same ▸ (walk_cons_iff.mp last).1⟩

theorem Enters.locate (enters : disk.Enters here path place) (named : name ≠ "..")
    (clean : (Path.mk 0 [name]).hasNull = false) (short : name.utf8ByteSize ≤ nameLimit)
    (fits : (path.join ⟨0,[name]⟩).text.utf8ByteSize ≤ pathLimit) :
    disk.locate here (path.join ⟨0,[name]⟩) = .ok (place ++ [name]) := by
  refine locate_iff.mpr ⟨?_,fits,walk_append_iff.mpr ⟨place,enters.walk,?_⟩⟩
  · rw [Path.hasNull_join,enters.clean,clean]
    rfl
  · rw [walk_cons_iff,Place.step_of_ne named]
    exact ⟨enters.directory,.inr short,rfl⟩

/-- A name that was followed somewhere can be followed in any directory. -/
theorem name_of_locate (named : name ≠ "..")
    (reached : disk.locate here (path.join ⟨0,[name]⟩) = .ok place) :
    (Path.mk 0 [name]).hasNull = false ∧ name.utf8ByteSize ≤ nameLimit := by
  obtain ⟨clean,_,walk⟩ := locate_iff.mp reached
  obtain ⟨middle,_,last⟩ := walk_append_iff.mp walk
  rw [Path.hasNull_join,Bool.or_eq_false_iff] at clean
  exact ⟨clean.2,(walk_cons_iff.mp last).2.1.resolve_left named⟩

end Names

/-- What lies in a directory that is there is found by its path, wherever the path was followed
before. -/
theorem locate_below {name : String} (has : after.HasDirectory here path)
    (reached : before.locate here (path.join ⟨0,[name]⟩) = .ok place) :
    after.locate here (path.join ⟨0,[name]⟩) = .ok place := by
  obtain ⟨clean,short,walk⟩ := locate_iff.mp reached
  obtain ⟨above,first,last⟩ := walk_append_iff.mp walk
  obtain ⟨directory,found,node⟩ := has
  have again := (locate_iff.mp found).2.2
  have same : directory = above := (place_of_walk again).trans (place_of_walk first).symm
  obtain ⟨_,fits,step⟩ := walk_cons_iff.mp last
  refine locate_iff.mpr ⟨clean,short,walk_append_iff.mpr ⟨directory,again,?_⟩⟩
  rw [← same] at step
  exact walk_cons_iff.mpr ⟨node,fits,step⟩

/-- One disk after another on which all directories are left, and of the `kept` places all files.
Where nothing was there may be a new directory. -/
structure Keeps (kept : Place → Prop) (before after : Disk) : Prop where
  directories : ∀ place, before.node? place = some .directory → after.node? place = some .directory
  nodes : ∀ place, kept place → after.node? place = before.node? place ∨
    before.node? place = none ∧ after.node? place = some .directory

theorem Keeps.refl (kept : Place → Prop) (disk : Disk) : disk.Keeps kept disk :=
  ⟨fun _ => id,fun _ _ => .inl rfl⟩

theorem Keeps.trans (first : before.Keeps kept next) (last : next.Keeps kept after) :
    before.Keeps kept after := by
  refine ⟨fun place directory => last.directories place (first.directories place directory),?_⟩
  intro place inside
  rcases first.nodes place inside with same | ⟨empty,made⟩
  · rw [← same]
    exact last.nodes place inside
  · exact .inr ⟨empty,last.directories place made⟩

theorem Keeps.mono {fewer : Place → Prop} (keeps : before.Keeps kept after)
    (subset : ∀ place, fewer place → kept place) : before.Keeps fewer after :=
  ⟨keeps.directories,fun place inside => keeps.nodes place (subset place inside)⟩

theorem Keeps.walk (keeps : before.Keeps kept after)
    (reached : before.walk start parts = .ok place) :
    after.walk start parts = .ok place := by
  induction parts generalizing start with
  | nil => exact reached
  | cons part rest ih =>
    obtain ⟨directory,short,further⟩ := walk_cons_iff.mp reached
    exact walk_cons_iff.mpr ⟨keeps.directories start directory,short,ih further⟩

theorem Keeps.locate (keeps : before.Keeps kept after)
    (reached : before.locate here path = .ok place) : after.locate here path = .ok place := by
  obtain ⟨clean,short,further⟩ := locate_iff.mp reached
  exact locate_iff.mpr ⟨clean,short,keeps.walk further⟩

theorem Keeps.file (keeps : before.Keeps kept after) (inside : kept place)
    (node : before.node? place = some (.file bytes)) :
    after.node? place = some (.file bytes) := by
  rcases keeps.nodes place inside with same | ⟨empty,_⟩
  · rw [same,node]
  · rw [node] at empty
    cases empty

theorem Keeps.read (keeps : before.Keeps kept after) (inside : kept (path.place here))
    (found : before.read here path = .ok bytes) : after.read here path = .ok bytes := by
  obtain ⟨place,reached,node⟩ := read_iff.mp found
  have same := place_of_locate reached
  exact read_iff.mpr ⟨place,keeps.locate reached,keeps.file (same ▸ inside) node⟩

theorem Keeps.hasDirectory (keeps : before.Keeps kept after)
    (has : before.HasDirectory here path) : after.HasDirectory here path := by
  obtain ⟨place,reached,directory⟩ := has
  exact ⟨place,keeps.locate reached,keeps.directories place directory⟩

theorem keeps_withFile (outside : disk.node? place ≠ some .directory) (free : ¬ kept place) :
    disk.Keeps kept (disk.withFile place bytes) := by
  constructor
  · intro other directory
    have apart : other ≠ place := fun same => outside (same ▸ directory)
    rw [node?_withFile_of_ne apart,directory]
  · intro other inside
    have apart : other ≠ place := fun same => free (same ▸ inside)
    exact .inl (node?_withFile_of_ne apart)

theorem node?_insert_directory (other : Place) :
    (Disk.mk (disk.nodes.insert place .directory)).node? other =
      if other = place then some .directory else disk.node? other := by
  rw [node?,node?,OrderedMap.get?_insert]
  split
  · next top => rw [List.isEmpty_iff.mp top,ite_self]
  · rfl

theorem makeOne_iff : disk.makeOne here path = .ok next ↔
    ∃ place, disk.locate here path = .ok place ∧ disk.node? place = none ∧
      next = ⟨disk.nodes.insert place .directory⟩ := by
  rw [makeOne]
  cases disk.locate here path with
  | error cause => simp
  | ok place =>
    dsimp only
    split
    · next there => simp [there]
    · next empty => simp [empty,eq_comm]

theorem keeps_makeOne (made : disk.makeOne here path = .ok next) : disk.Keeps kept next := by
  obtain ⟨place,_,empty,rfl⟩ := makeOne_iff.mp made
  constructor
  · intro other directory
    rw [node?_insert_directory,directory,ite_self]
  · intro other _
    rw [node?_insert_directory]
    by_cases same : other = place
    · exact .inr ⟨same ▸ empty,if_pos same⟩
    · exact .inl (if_neg same)

theorem keeps_makeFrom (slashes : Nat) (reversed : List String) :
    disk.Keeps kept (makeFrom here slashes reversed disk).2 := by
  induction reversed generalizing disk with
  | nil =>
    unfold makeFrom
    dsimp only
    split
    · next made => exact keeps_makeOne made
    · exact .refl kept disk
    · exact .refl kept disk
  | cons part above ih =>
    unfold makeFrom
    dsimp only
    split
    · next made => exact keeps_makeOne made
    · -- The directories above come first, and stay when this one cannot be made.
      have keeps := @ih disk
      generalize makeFrom here slashes above disk = result at keeps
      obtain ⟨outcome,made⟩ := result
      cases outcome with
      | error fault => exact keeps
      | ok _ =>
        dsimp only
        split
        · next done => exact keeps.trans (keeps_makeOne done)
        · exact keeps
    · exact .refl kept disk

theorem keeps_makeDirectories (disk : Disk) (here : Place) (path : Path) :
    disk.Keeps kept (disk.makeDirectories here path).2 :=
  keeps_makeFrom path.slashes path.parts.reverse

theorem hasDirectory_of_makeOne (made : disk.makeOne here path = .ok next) :
    next.HasDirectory here path := by
  have keeps : disk.Keeps (fun _ => True) next := keeps_makeOne made
  obtain ⟨place,reached,_,rfl⟩ := makeOne_iff.mp made
  exact ⟨place,keeps.locate reached,by rw [node?_insert_directory,if_pos rfl]⟩

theorem hasDirectory_of_settle {cause : Cause} (settled : disk.settle here path cause = .ok ()) :
    disk.HasDirectory here path := by
  rw [settle] at settled
  split at settled
  · next place reached =>
    split at settled
    · next directory => exact ⟨place,reached,eq_of_beq directory⟩
    · cases settled
  · cases settled

/-- A directory that was made is there. -/
theorem hasDirectory_of_makeDirectories (made : disk.makeDirectories here path = (.ok (),next)) :
    next.HasDirectory here path := by
  obtain ⟨slashes,parts⟩ := path
  rw [makeDirectories] at made
  dsimp only at made
  unfold makeFrom at made
  rw [List.reverse_reverse] at made
  dsimp only at made
  split at made
  · next one =>
    cases made
    exact hasDirectory_of_makeOne one
  · split at made
    · cases made
    · next part above _ =>
      generalize makeFrom here slashes above disk = outcome at made
      obtain ⟨outcome,between⟩ := outcome
      cases outcome with
      | error fault => cases made
      | ok _ =>
        dsimp only at made
        split at made
        · next one =>
          cases made
          exact hasDirectory_of_makeOne one
        · obtain ⟨settled,rfl⟩ := Prod.mk.inj made
          exact hasDirectory_of_settle settled
  · obtain ⟨settled,rfl⟩ := Prod.mk.inj made
    exact hasDirectory_of_settle settled

/-- A directory that is there is not made again. -/
theorem makeDirectories_eq (has : disk.HasDirectory here path) :
    disk.makeDirectories here path = (.ok (),disk) := by
  obtain ⟨place,reached,directory⟩ := has
  have there : disk.makeOne here path = .error .alreadyThere := by
    rw [makeOne,reached]
    dsimp only
    rw [directory]
  have settled : disk.settle here path .alreadyThere = .ok () := by
    rw [settle,reached]
    dsimp only
    rw [directory]
    rfl
  unfold makeDirectories makeFrom
  rw [List.reverse_reverse]
  dsimp only
  rw [there]
  dsimp only
  rw [settled]

end Disk

end JavaAtlas
