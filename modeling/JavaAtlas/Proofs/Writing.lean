import JavaAtlas.Proofs.Declarations
import JavaAtlas.Proofs.Sources

/-! Reports below two directories. Their names come from packages and files and have no slash, so
that they can be written below any directory that was made for them, and the same is found there. -/
namespace JavaAtlas

namespace Text

theorem not_mem_afterLast (mark : Char) (text : List Char) : mark ∉ afterLast mark text := by
  intro member
  have other := List.mem_takeWhile_imp (List.mem_reverse.mp member)
  simp at other

theorem mem_of_mem_beforeLast {mark c : Char} {text : List Char}
    (member : c ∈ beforeLast mark text) : c ∈ text :=
  List.mem_reverse.mp ((List.dropWhile_sublist _).mem
    ((List.drop_sublist _ _).mem (List.mem_reverse.mp member)))

end Text

theorem solid_unitName (file : String) : '/' ∉ (unitName file).toList := by
  rw [unitName,String.toList_ofList,stem]
  have solid := Text.not_mem_afterLast '/' file.toList
  split
  · exact solid
  · exact fun member => solid (Text.mem_of_mem_beforeLast member)

theorem Header.solid_packageOf (masked : List Char) : '/' ∉ (packageOf masked).toList := by
  have blank (c : Char) (blank : Text.isBlank c = true) : c ≠ '/' := by
    rintro rfl
    exact absurd blank (by decide)
  have letter (c : Char) (letter : isNameChar c = true) : c ≠ '/' := by
    rintro rfl
    exact absurd letter (by decide)
  have close (c : Char) (same : (c == ';') = true) : c ≠ '/' := by
    rintro rfl
    exact absurd same (by decide)
  have covered : packagePattern.Over (· ≠ '/') :=
    ⟨trivial,Pattern.over_literal (by decide),⟨blank,blank⟩,⟨letter,letter⟩,blank,close⟩
  rw [packageOf]
  split
  · next found matched =>
    rw [String.toList_ofList]
    exact fun member => covered.captured matched 1 '/' member rfl
  · decide

/-- Neither the name nor the package of the unit has a slash. -/
def CompilationUnit.Solid (unit : CompilationUnit) : Prop :=
  '/' ∉ unit.package.toList ∧ '/' ∉ unit.name.toList

theorem CompilationUnit.Solid.pageFile {unit : CompilationUnit} (solid : unit.Solid) :
    '/' ∉ (Report.pageFile unit).toList := by
  intro member
  simp only [Report.pageFile,String.toList_append,String.toList_ofList,List.mem_append,
    List.mem_map] at member
  rcases member with ((⟨c,inside,same⟩ | bar) | name) | ending
  · split at same
    · exact absurd same (by decide)
    · exact solid.1 (same ▸ inside)
  · exact absurd bar (by decide)
  · exact solid.2 name
  · exact absurd ending (by decide)

namespace Model

theorem forall_solid_iff (model : Model) : (∀ unit ∈ model.units.values, unit.Solid) ↔
    ∀ line ∈ model.outline, '/' ∉ line.2.1.toList ∧ '/' ∉ line.2.2.toList := by
  rw [outline,OrderedMap.values,List.forall_mem_map,List.forall_mem_map]
  rfl

/-- Units of models with the same outline have the same names and packages. -/
theorem solid_of_outline {model other : Model} (same : other.outline = model.outline)
    (solid : ∀ unit ∈ model.units.values, unit.Solid) :
    ∀ unit ∈ other.units.values, unit.Solid := by
  rw [forall_solid_iff,same,← forall_solid_iff]
  exact solid

end Model

theorem Extraction.solid_of_read {content : List Char} {file language : String}
    {extraction : Extraction} (read : read? content file language = some extraction) :
    extraction.unit.Solid := by
  rw [read?] at read
  split at read
  · rw [← Option.some.inj read]
    exact ⟨Header.solid_packageOf _,solid_unitName file⟩
  · cases read

theorem Analysis.read_of_readSource {disk : Disk} {here : Place} {path : Path}
    {extraction : Extraction} (read : readSource disk here path = .ok (some extraction)) :
    ∃ content language, Extraction.read? content path.text language = some extraction := by
  rw [readSource] at read
  cases held : disk.read here path with
  | error fault =>
    rw [held] at read
    cases read
  | ok bytes =>
    rw [held] at read
    obtain ⟨language,_,found⟩ := Option.bind_eq_some_iff.mp (Except.ok.inj read)
    exact ⟨_,language,found⟩

theorem Analysis.solid_ofFiles (disk : Disk) (here : Place) (paths : List Path) :
    ∀ unit ∈ (ofFiles disk here paths).units.values, unit.Solid := by
  have merged : (paths.foldl (merge disk here) {}).resolved = false ∧
      ∀ unit ∈ (paths.foldl (merge disk here) {}).units.values, unit.Solid := by
    refine List.foldlRecOn paths (merge disk here) (motive := fun model : Model =>
      model.resolved = false ∧ ∀ unit ∈ model.units.values, unit.Solid) ⟨rfl,nofun⟩ ?_
    rintro model ⟨isOpen,solid⟩ path _
    rw [merge]
    split
    · exact ⟨isOpen,solid⟩
    · exact ⟨isOpen,solid⟩
    · next extraction read =>
      obtain ⟨next,taken,added,grown⟩ := Model.add_open isOpen extraction
      rw [added]
      refine ⟨grown.isOpen,?_⟩
      intro unit member
      rcases grown.origin unit member with known | ⟨source,single,rfl⟩
      · exact solid unit known
      · rw [List.mem_singleton.mp single]
        obtain ⟨content,language,found⟩ := read_of_readSource read
        exact Extraction.solid_of_read found
  rw [ofFiles_eq]
  exact Model.solid_of_outline (Model.outline_resolveUnits _ _).1 merged.2

namespace Report
variable {model : Model} {output target : Path} {world start after : World} {written : List Path}
  {report : String × String} {reports : List (String × String)} {parts : List String}

/-- The parts that lead to a report from the directory of all reports. -/
def partsOf (report : String × String) : List String := (Path.ofText report.1).parts

/-- The name of a report leads down from the directory of all reports. -/
def Named (report : String × String) : Prop :=
  (Path.ofText report.1).slashes = 0 ∧ partsOf report ≠ [] ∧ ".." ∉ partsOf report

theorem child_eq (named : Named report) (output : Path) :
    output.child report.1 = output.join ⟨0,partsOf report⟩ := by
  rw [Path.child,partsOf,← named.1]

theorem placeOf_eq (named : Named report) (output : Path) (here : Place) :
    placeOf output here report = output.place here ++ partsOf report := by
  rw [placeOf,child_eq named,Path.place_join,Place.foldl_step named.2.2]

theorem ne_parent_of_report {name : String} (ends : ".md".toList <:+ name.toList) : name ≠ ".." := by
  rintro rfl
  exact absurd ends (by decide)

theorem place_pages (output : Path) (here : Place) :
    (output.join ⟨0,["method-details"]⟩).place here = output.place here ++ ["method-details"] := by
  rw [Path.place_join,Place.foldl_step (by decide)]

/-- A report lies in the directory of all reports or in that of the pages. -/
theorem partsOf_file (solid : ∀ unit ∈ model.units.values, unit.Solid)
    (member : report ∈ files model) : Named report ∧ ∃ above name,
      (above = [] ∨ above = ["method-details"]) ∧ partsOf report = above ++ [name] ∧
        ".md".toList <:+ name.toList := by
  have ends := ends_of_files member
  rw [files_eq,List.mem_append] at member
  rcases member with summary | page
  · have names : ∀ name ∈ ["api-summary.md","class-hierarchy.md","enum-summary.md"],
        '/' ∉ name.toList ∧ Path.isPart name = true := by
      decide
    obtain ⟨whole,part⟩ :=
      names report.1 ((names_summaries model).mem (List.mem_map_of_mem summary))
    have path := Path.ofText_name whole part
    have parts : partsOf report = [report.1] := congrArg Path.parts path
    refine ⟨⟨congrArg Path.slashes path,?_,?_⟩,[],report.1,.inl rfl,parts,ends⟩
    · rw [parts]
      exact List.cons_ne_nil _ _
    · rw [parts,List.mem_singleton]
      exact (ne_parent_of_report ends).symm
  · obtain ⟨unit,inside,rfl⟩ := List.mem_map.mp page
    have path := ofText_page (solid unit inside).pageFile
    have parts : partsOf (pageOf model unit) = ["method-details",pageFile unit] :=
      congrArg Path.parts path
    have tail := ends_pageFile unit
    refine ⟨⟨congrArg Path.slashes path,?_,?_⟩,["method-details"],pageFile unit,.inr rfl,parts,tail⟩
    · rw [parts]
      exact List.cons_ne_nil _ _
    · rw [parts]
      simp [(ne_parent_of_report tail).symm]

/-- What was written last under a name is found there. -/
theorem node_of_puts (done : (reports.mapM (put output)).run.run world = (.ok written,after))
    (named : ∀ report ∈ reports, Named report) {front rest : List (String × String)}
    (split : reports = front ++ report :: rest)
    (apart : ∀ other ∈ rest, partsOf other ≠ partsOf report) :
    after.disk.node? (output.place world.here ++ partsOf report) =
      some (.file (Text.Utf8.encode report.2.toList)) := by
  subst split
  have own := named report (by simp)
  rw [← placeOf_eq own]
  apply (found_of_puts done).2
  intro other member same
  rw [placeOf_eq own,placeOf_eq (named other (by simp [member]))] at same
  exact apart other member (List.append_cancel_left same)

theorem puts_run (each : ∀ report ∈ reports, ∃ place,
    world.disk.locate world.here (output.child report.1) = .ok place ∧
      world.disk.node? place ≠ some .directory) :
    ∃ written after, (reports.mapM (put output)).run.run world = (.ok written,after) := by
  induction reports generalizing world with
  | nil => exact ⟨[],world,rfl⟩
  | cons report reports ih =>
    rw [List.forall_mem_cons] at each
    obtain ⟨⟨place,reached,outside⟩,others⟩ := each
    let disk := world.disk.withFile place (Text.Utf8.encode report.2.toList)
    have first : (put output report).run.run world =
        (.ok (output.child report.1),{world with disk}) :=
      put_iff.mpr ⟨rfl,disk,Disk.write_iff.mpr ⟨place,reached,outside,rfl⟩,rfl⟩
    have keeps : world.disk.Keeps (fun _ => False) disk := Disk.keeps_withFile outside id
    have still : ∀ other ∈ reports, ∃ place,
        disk.locate world.here (output.child other.1) = .ok place ∧
          disk.node? place ≠ some .directory := by
      intro other member
      obtain ⟨spot,found,free⟩ := others other member
      refine ⟨spot,keeps.locate found,?_⟩
      by_cases same : spot = place
      · have inside : place ≠ [] := by
          rintro rfl
          exact outside rfl
        rw [same,Disk.node?_withFile inside]
        exact nofun
      · rwa [Disk.node?_withFile_of_ne same]
    obtain ⟨written,after,rest⟩ := @ih {world with disk} still
    refine ⟨output.child report.1 :: written,after,?_⟩
    rw [List.mapM_cons,Action.run_bind,first]
    dsimp only
    rw [Action.run_bind,rest]
    rfl

/-- The directories for reports can be made, and nothing but that for pages lies in them then. -/
def Fresh (world : World) (output : Path) : Prop :=
  ∃ disk, world.disk.makeDirectories world.here (output.child "method-details") = (.ok (),disk) ∧
    ∀ parts, parts ≠ [] → disk.node? (output.place world.here ++ parts) ≠ none →
      parts = ["method-details"]

/-- The texts of all paths of reports are short enough to be followed. -/
def Fits (model : Model) (output : Path) : Prop :=
  ∀ report ∈ files model, (output.child report.1).text.utf8ByteSize ≤ Disk.pathLimit

/-- All files below a directory that was fresh are reports. -/
theorem report_of_puts {disk : Disk} (named : ∀ report ∈ reports, Named report)
    (has : disk.HasDirectory start.here (target.join ⟨0,["method-details"]⟩))
    (empty : ∀ parts, parts ≠ [] → disk.node? (target.place start.here ++ parts) ≠ none →
      parts = ["method-details"])
    (done : (reports.mapM (put target)).run.run {start with disk} = (.ok written,after))
    (given : parts ≠ []) {bytes : List UInt8}
    (node : after.disk.node? (target.place start.here ++ parts) = some (.file bytes)) :
    ∃ report ∈ reports, partsOf report = parts := by
  by_contra none
  have elsewhere : ∀ report ∈ reports,
      target.place start.here ++ parts ≠ placeOf target start.here report := by
    intro report member same
    rw [placeOf_eq (named report member)] at same
    exact none ⟨report,member,(List.append_cancel_left same).symm⟩
  rcases (keeps_of_puts done).2.disk.nodes _ elsewhere with kept | ⟨_,directory⟩
  · rw [node] at kept
    have directory := has.enters.directory
    rw [place_pages,← empty parts given (by rw [← kept]; exact Option.some_ne_none _),← kept]
      at directory
    cases directory
  · rw [node] at directory
    cases directory

section Fresh
variable (solid : ∀ unit ∈ model.units.values, unit.Solid)
  (done : (writeAll model output).run.run world = (.ok written,after))
include solid done

/-- Reports that were written below one directory can be written below a fresh one. -/
theorem reached_of_fresh {disk : Disk} {here : Place}
    (has : disk.HasDirectory here (target.join ⟨0,["method-details"]⟩))
    (empty : ∀ parts, parts ≠ [] → disk.node? (target.place here ++ parts) ≠ none →
      parts = ["method-details"]) (fits : Fits model target) (member : report ∈ files model) :
    ∃ place, disk.locate here (target.child report.1) = .ok place ∧
      disk.node? place ≠ some .directory := by
  obtain ⟨named,above,name,either,parts,ends⟩ := partsOf_file solid member
  obtain ⟨made,_,puts⟩ := puts_of_writeAll done
  obtain ⟨front,rest,split⟩ := List.append_of_mem member
  have reached := (found_of_puts (split ▸ puts)).1
  have short := fits report member
  have notParent := ne_parent_of_report ends
  have free : disk.node? (target.place here ++ partsOf report) ≠ some .directory := by
    intro directory
    have only := empty _ named.2.1 (by rw [directory]; exact Option.some_ne_none _)
    rw [parts] at only
    rw [(List.cons.inj (List.append_inj' (only.trans (List.nil_append _).symm) rfl).2).1] at ends
    exact absurd ends (by decide)
  refine ⟨_,?_,free⟩
  have enters := has.enters
  rw [child_eq named,parts,← Path.join_join] at reached short ⊢
  obtain ⟨clean,fit⟩ := Disk.name_of_locate notParent reached
  rw [← List.append_assoc]
  rcases either with rfl | rfl
  · rw [Path.join_nil] at short ⊢
    rw [List.append_nil]
    exact enters.above.locate notParent clean fit short
  · rw [← place_pages]
    exact enters.locate notParent clean fit short

theorem mem_written : output.join ⟨0,parts⟩ ∈ written ↔
    ∃ report ∈ files model, partsOf report = parts := by
  obtain ⟨_,_,puts⟩ := puts_of_writeAll done
  rw [(keeps_of_puts puts).1,List.mem_map]
  refine exists_congr fun report => and_congr_right fun member => ?_
  rw [child_eq (partsOf_file solid member).1]
  constructor
  · exact fun same => List.append_cancel_left (Path.mk.inj same).2
  · rintro rfl
    rfl

/-- The same is found below two directories where one report was written to both, namely what was
written last under its name. -/
theorem node_same {copies : List Path} {last : World}
    (again : ((files model).mapM (put target)).run.run start = (.ok copies,last))
    (member : report ∈ files model) :
    last.disk.node? (target.place start.here ++ partsOf report) =
      after.disk.node? (output.place world.here ++ partsOf report) := by
  have named : ∀ report ∈ files model, Named report :=
    fun report member => (partsOf_file solid member).1
  obtain ⟨begun,here,puts⟩ := puts_of_writeAll done
  obtain ⟨front,final,rest,split,same,apart⟩ := last_with_key partsOf member
  have one := node_of_puts puts named split apart
  have two := node_of_puts again named split apart
  rw [here,same] at one
  rw [same] at two
  rw [one,two]

/-- Below a fresh directory the same reports are found as were written below the other one. -/
theorem writeAll_fresh (fresh : Fresh start target) (fits : Fits model target) :
    ∃ copies last, (writeAll model target).run.run start = (.ok copies,last) ∧
      ∀ parts bytes, (parts,bytes) ∈ last.disk.filesBelow (target.place start.here) ↔
        output.join ⟨0,parts⟩ ∈ written ∧
          (parts,bytes) ∈ after.disk.filesBelow (output.place world.here) := by
  have named : ∀ report ∈ files model, Named report :=
    fun report member => (partsOf_file solid member).1
  obtain ⟨disk,made,empty⟩ := fresh
  have has := Disk.hasDirectory_of_makeDirectories made
  rw [Path.child,Path.ofText_name (by decide) (by decide)] at has
  obtain ⟨copies,last,again⟩ := @puts_run target {start with disk} (files model) fun report member =>
    reached_of_fresh solid done has empty fits member
  have run : (writeAll model target).run.run start = (.ok copies,last) := by
    rw [writeAll_eq,Action.run_bind,Action.run_makeDirectories,made]
    exact again
  refine ⟨copies,last,run,?_⟩
  intro parts bytes
  rw [mem_written solid done,Disk.mem_filesBelow,Disk.mem_filesBelow]
  constructor
  · rintro ⟨given,node⟩
    obtain ⟨report,member,rfl⟩ := report_of_puts named has empty again given node
    exact ⟨⟨report,member,rfl⟩,given,(node_same solid done again member).symm.trans node⟩
  · rintro ⟨⟨report,member,rfl⟩,given,node⟩
    exact ⟨given,(node_same solid done again member).trans node⟩

end Fresh

end Report

end JavaAtlas
