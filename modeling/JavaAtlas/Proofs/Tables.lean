import JavaAtlas.Proofs.Ownership
import JavaAtlas.Proofs.Words
import JavaAtlas.Report.Page
import Mathlib.Data.List.Induction
import Mathlib.Data.List.Perm.Basic

/-! Endpoint tables as they stand on the pages. A page is read entry by entry: rows and rules begin
with a bar, and the headings before them tell the package and the class. An entry is one line of the
page, unless it shows an argument of an annotation that was written on several lines: a row with such
an argument is one entry all the same. -/
namespace JavaAtlas.Report

/-- The entries of the summary of all operations. The row of an operation is one entry, also where an
argument brings line breaks into it. -/
def apiLines (model : Model) : List String :=
  ["# API Endpoints Summary",""] ++ (packageGroups model.endpoints).flatMap packageSection

theorem api_eq (model : Model) : api model = page (apiLines model) := rfl

/-- The entries of the page of a unit before what it serves. -/
def unitHead (unit : CompilationUnit) : List String :=
  ["# Methods for " ++ unit.name,"","Package: `" ++ unit.package ++ "`",""] ++
    (namedSuperclass unit).elim [] (fun name => ["Extends: `" ++ name ++ "`",""]) ++
    (if unit.interfaces.isEmpty then []
      else ["Implements: " ++
        Text.join ", " (unit.interfaces.map fun name => "`" ++ name ++ "`"),""])

/-- The entries of the page of a unit. As in the summary, the row of an operation is one entry, and
so is the documentation of a method, on however many lines it stands. -/
def unitLines (unit : CompilationUnit) (endpoints : List Endpoint) : List String :=
  unitHead unit ++ restSection unit endpoints ++ ["## Method Details",""] ++
    unit.methods.flatMap methodSection

theorem methodDetails_eq (model : Model) (unit : CompilationUnit) :
    methodDetails model unit = page (unitLines unit (model.endpointsOf unit)) := rfl

def startsWith (front line : String) : Bool := front.toList.isPrefixOf line.toList

def isTableLine (line : String) : Bool := startsWith "|" line

/-- The table on the page of a unit, which stands before the details of the methods. -/
def unitTable (lines : List String) : List String :=
  (lines.takeWhile (· != "## Method Details")).filter isTableLine

/-- The table lines under the headings of a package and a class. The flags tell whether the
headings last passed are those. -/
def tableUnder (package name : String) : Bool → Bool → List String → List String
  | _, _, [] => []
  | inPackage, inClass, line :: rest =>
    if startsWith "## Package: " line then
      tableUnder package name (line == "## Package: " ++ package) false rest
    else if startsWith "### Class: " line then
      tableUnder package name inPackage (line == "### Class: " ++ name) rest
    else if inPackage && inClass && isTableLine line then
      line :: tableUnder package name inPackage inClass rest
    else tableUnder package name inPackage inClass rest

def sectionTable (package name : String) (lines : List String) : List String :=
  tableUnder package name false false lines

/-- Lines of a table under its head. -/
def isRow (line : String) : Bool := startsWith "| " line && !(endpointTable []).contains line

/-- The table of operations where there are any. -/
def tableOf (endpoints : List Endpoint) : List String :=
  if endpoints.isEmpty then [] else endpointTable endpoints

section Lines

theorem startsWith_longer {front text : String} (starts : startsWith front text = true)
    (rest : String) : startsWith front (text ++ rest) = true := by
  rw [startsWith,List.isPrefixOf_iff_prefix] at starts
  rw [startsWith,String.toList_append,List.isPrefixOf_iff_prefix]
  exact starts.trans (List.prefix_append _ _)

theorem startsWith_append (front rest : String) : startsWith front (front ++ rest) = true :=
  startsWith_longer (List.isPrefixOf_iff_prefix.mpr List.prefix_rfl) rest

theorem startsWith_of_append {front text : String} (one : ¬ front.toList <+: text.toList)
    (two : ¬ text.toList <+: front.toList) (rest : String) :
    startsWith front (text ++ rest) = false := by
  rw [startsWith,Bool.eq_false_iff,ne_eq,List.isPrefixOf_iff_prefix,String.toList_append]
  intro begins
  exact (List.prefix_or_prefix_of_prefix begins (List.prefix_append _ _)).elim one two

theorem append_beq (front first second : String) :
    (front ++ first == front ++ second) = (first == second) := by
  rw [Bool.eq_iff_iff,beq_iff_eq,beq_iff_eq]
  constructor
  · intro same
    have lists := congrArg String.toList same
    rw [String.toList_append,String.toList_append] at lists
    exact String.toList_injective (List.append_cancel_left lists)
  · rintro rfl
    rfl

/-- A row by what stands before its verb and what stands behind. -/
theorem endpointRow_eq (endpoint : Endpoint) : endpointRow endpoint =
    "| " ++ ((endpoint.methodName ++ " | " ++ endpoint.path ++ " | ") ++ (endpoint.httpMethod ++
      (" | " ++ endpoint.consumes.getD "" ++ " | " ++ endpoint.produces.getD "" ++ " |"))) := by
  unfold endpointRow
  simp only [String.append_assoc]

theorem isTableLine_of_mem {endpoints : List Endpoint} {line : String}
    (member : line ∈ endpointTable endpoints) : isTableLine line = true := by
  rcases List.mem_append.mp member with head | row
  · exact (by decide +kernel : ∀ line ∈ endpointTable [], isTableLine line = true) line
      (List.mem_append_left _ head)
  · obtain ⟨endpoint,_,rfl⟩ := List.mem_map.mp row
    rw [endpointRow_eq]
    exact startsWith_longer (by decide) _

theorem append_ne {front text : String} (apart : ¬ front.toList <+: text.toList) (rest : String) :
    front ++ rest ≠ text := by
  rintro rfl
  rw [String.toList_append] at apart
  exact apart (List.prefix_append _ _)

/-- What begins with a bar is no heading. -/
theorem startsWith_of_isTableLine {line heading : String} (table : isTableLine line = true)
    (sharp : heading.toList.head? = some '#') : startsWith heading line = false := by
  rw [isTableLine,startsWith,List.isPrefixOf_iff_prefix] at table
  rw [startsWith,Bool.eq_false_iff,ne_eq,List.isPrefixOf_iff_prefix]
  rintro ⟨after,same⟩
  obtain ⟨rest,shape⟩ := table
  obtain ⟨letters,first⟩ := List.head?_eq_some_iff.mp sharp
  rw [first,← shape] at same
  cases same

end Lines

section Under
variable {package name : String} (inPackage inClass : Bool)

theorem tableUnder_blank (rest : List String) :
    tableUnder package name inPackage inClass ("" :: rest) =
      tableUnder package name inPackage inClass rest := by
  have package : startsWith "## Package: " "" = false := by decide
  have class_ : startsWith "### Class: " "" = false := by decide
  have table : isTableLine "" = false := by decide
  rw [tableUnder]
  simp [package,class_,table]

theorem tableUnder_package (heading : String) (rest : List String) :
    tableUnder package name inPackage inClass (("## Package: " ++ heading) :: rest) =
      tableUnder package name (heading == package) false rest := by
  rw [tableUnder,if_pos (startsWith_append _ _),append_beq]

theorem tableUnder_class (heading : String) (rest : List String) :
    tableUnder package name inPackage inClass (("### Class: " ++ heading) :: rest) =
      tableUnder package name inPackage (heading == name) rest := by
  have other := @startsWith_of_append "## Package: " "### Class: " (by decide) (by decide) heading
  rw [tableUnder,if_neg (by simp [other]),if_pos (startsWith_append _ _),append_beq]

theorem tableUnder_table {lines : List String} (table : ∀ line ∈ lines, isTableLine line = true)
    (rest : List String) : tableUnder package name inPackage inClass (lines ++ rest) =
      (if inPackage && inClass then lines else []) ++
        tableUnder package name inPackage inClass rest := by
  induction lines with
  | nil => simp
  | cons line lines ih =>
    rw [List.forall_mem_cons] at table
    have package := @startsWith_of_isTableLine line "## Package: " table.1 (by decide)
    have class_ := @startsWith_of_isTableLine line "### Class: " table.1 (by decide)
    rw [List.cons_append,tableUnder,ih table.2]
    simp only [package,class_,table.1]
    cases inPackage <;> cases inClass <;> simp

theorem tableUnder_classSection (group : String × List Endpoint) (rest : List String) :
    tableUnder package name inPackage inClass (classSection group ++ rest) =
      (if inPackage && group.1 == name then endpointTable group.2 else []) ++
        tableUnder package name inPackage (group.1 == name) rest := by
  have table := @tableUnder_table package name inPackage (group.1 == name) (endpointTable group.2)
    (fun _ => isTableLine_of_mem) ("" :: rest)
  rw [tableUnder_blank] at table
  rw [classSection]
  simp only [List.cons_append,List.nil_append,List.append_assoc]
  rw [tableUnder_class,tableUnder_blank,table]

theorem tableUnder_classSections (groups : ClassGroups) (rest : List String) :
    ∃ after, tableUnder package name inPackage inClass (groups.flatMap classSection ++ rest) =
      (groups.flatMap fun group =>
        if inPackage && group.1 == name then endpointTable group.2 else []) ++
        tableUnder package name inPackage after rest := by
  induction groups generalizing inClass with
  | nil => exact ⟨inClass,rfl⟩
  | cons group groups ih =>
    obtain ⟨after,others⟩ := ih (group.1 == name)
    refine ⟨after,?_⟩
    rw [List.flatMap_cons,List.flatMap_cons,List.append_assoc,tableUnder_classSection,others,
      List.append_assoc]

theorem tableUnder_packageSections (groups : List (String × ClassGroups)) :
    tableUnder package name inPackage inClass (groups.flatMap packageSection) =
      groups.flatMap fun outer => outer.2.flatMap fun group =>
        if outer.1 == package && group.1 == name then endpointTable group.2 else [] := by
  induction groups generalizing inPackage inClass with
  | nil => rfl
  | cons group groups ih =>
    obtain ⟨after,inner⟩ := @tableUnder_classSections package name (group.1 == package) false group.2
      (groups.flatMap packageSection)
    rw [List.flatMap_cons,List.flatMap_cons,packageSection,List.append_assoc]
    simp only [List.cons_append,List.nil_append]
    rw [tableUnder_package,tableUnder_blank,inner,ih]

end Under

section Groups

theorem nodup_eraseDups (texts : List String) : texts.eraseDups.Nodup := by
  induction texts using List.reverseRecOn with
  | nil => exact .nil
  | append_singleton texts text ih =>
    rw [Model.eraseDups_concat]
    split
    · exact ih
    · next fresh =>
      rw [List.nodup_append]
      refine ⟨ih,List.nodup_singleton text,?_⟩
      rintro other known last single rfl
      exact fresh (List.mem_singleton.mp single ▸ List.mem_eraseDups.mp known)

theorem nodup_distinctSorted (texts : List String) : (distinctSorted texts).Nodup :=
  (Text.perm_sorted _).nodup_iff.mpr (nodup_eraseDups texts)

theorem mem_distinctSorted {text : String} {texts : List String} :
    text ∈ distinctSorted texts ↔ text ∈ texts := by
  rw [distinctSorted,Text.mem_sorted,List.mem_eraseDups]

/-- Of distinct keys one at most is the one looked for. -/
theorem flatMap_key {α : Type} {keys : List String} (distinct : keys.Nodup) (key : String)
    (lines : String → List α) :
    (keys.flatMap fun other => if other == key then lines other else []) =
      if key ∈ keys then lines key else [] := by
  induction keys with
  | nil => rfl
  | cons other keys ih =>
    rw [List.nodup_cons] at distinct
    rw [List.flatMap_cons,ih distinct.2]
    by_cases same : other = key
    · subst same
      simp [distinct.1]
    · simp [same,Ne.symm same]

/-- Grouping by distinct keys loses nothing. -/
theorem perm_groups {α : Type} {keys : List String} (distinct : keys.Nodup) {key : α → String}
    {items : List α} (covered : ∀ item ∈ items, key item ∈ keys) :
    (keys.flatMap fun group => items.filter fun item => key item == group).Perm items := by
  induction items with
  | nil => simp
  | cons item items ih =>
    rw [List.forall_mem_cons] at covered
    have split : (keys.flatMap fun group => (item :: items).filter fun item => key item == group) =
        keys.flatMap fun group => (if group == key item then [item] else []) ++
          items.filter fun item => key item == group := by
      apply List.flatMap_congr
      intro group _
      rw [List.filter_cons,BEq.comm]
      split <;> rfl
    have only := flatMap_key distinct (key item) fun _ => [item]
    rw [if_pos covered.1] at only
    rw [split]
    exact (List.flatMap_append_perm keys _ _).symm.trans
      ((List.Perm.of_eq only).append (ih covered.2))

end Groups

section Pages
variable {endpoints : List Endpoint}

theorem classTable (name : String) (endpoints : List Endpoint) :
    ((classGroups endpoints).flatMap fun group =>
      if group.1 == name then endpointTable group.2 else []) =
        tableOf (endpoints.filter fun endpoint => endpoint.className == name) := by
  rw [classGroups,List.flatMap_map,flatMap_key (nodup_distinctSorted _) name fun name =>
    endpointTable (endpoints.filter fun endpoint => endpoint.className == name)]
  by_cases listed : name ∈ endpoints.map Endpoint.className
  · obtain ⟨endpoint,member,same⟩ := List.mem_map.mp listed
    have kept : endpoint ∈ endpoints.filter fun endpoint => endpoint.className == name :=
      List.mem_filter.mpr ⟨member,by rw [same]; exact beq_self_eq_true name⟩
    rw [if_pos (mem_distinctSorted.mpr listed),tableOf,if_neg]
    rw [List.isEmpty_iff]
    exact List.ne_nil_of_mem kept
  · rw [if_neg (fun member => listed (mem_distinctSorted.mp member)),
      List.filter_eq_nil_iff.mpr]
    · rfl
    · intro endpoint member same
      exact listed (List.mem_map.mpr ⟨endpoint,member,beq_iff_eq.mp same⟩)

/-- Under the headings of a package and a class stands the table of their operations. -/
theorem packageTable (package name : String) (endpoints : List Endpoint) :
    ((packageGroups endpoints).flatMap fun outer => outer.2.flatMap fun group =>
      if outer.1 == package && group.1 == name then endpointTable group.2 else []) =
        tableOf (endpoints.filter fun endpoint =>
          endpoint.className == name && endpoint.package == package) := by
  have outer (group : String × ClassGroups) : (group.2.flatMap fun inner =>
      if group.1 == package && inner.1 == name then endpointTable inner.2 else []) =
        if group.1 == package then
          group.2.flatMap fun inner => if inner.1 == name then endpointTable inner.2 else []
        else [] := by
    cases group.1 == package <;> simp
  simp only [outer]
  rw [packageGroups,List.flatMap_map,flatMap_key (nodup_distinctSorted _) package fun package =>
    (classGroups (endpoints.filter fun endpoint => endpoint.package == package)).flatMap fun inner =>
      if inner.1 == name then endpointTable inner.2 else [],classTable,List.filter_filter]
  by_cases listed : package ∈ endpoints.map Endpoint.package
  · rw [if_pos (mem_distinctSorted.mpr listed)]
  · rw [if_neg (fun member => listed (mem_distinctSorted.mp member)),List.filter_eq_nil_iff.mpr]
    · rfl
    · intro endpoint member same
      rw [Bool.and_eq_true,beq_iff_eq,beq_iff_eq] at same
      exact listed (List.mem_map.mpr ⟨endpoint,member,same.2⟩)

theorem sectionTable_api (model : Model) (unit : CompilationUnit) :
    sectionTable unit.package unit.name (apiLines model) = tableOf (model.endpointsOf unit) := by
  have title : startsWith "## Package: " "# API Endpoints Summary" = false := by decide
  have other : startsWith "### Class: " "# API Endpoints Summary" = false := by decide
  rw [sectionTable,apiLines,List.cons_append,tableUnder,title,other]
  simp only [Bool.false_and,Bool.false_eq_true,if_false,List.singleton_append]
  rw [tableUnder_blank,tableUnder_packageSections,packageTable]
  rfl

/-- Lines that may stand before the details of the methods and belong to no table. -/
def isAside (line : String) : Bool := line != "## Method Details" && !isTableLine line

theorem isAside_append {front : String} (apart : ¬ front.toList <+: "## Method Details".toList)
    (one : ¬ "|".toList <+: front.toList) (two : ¬ front.toList <+: "|".toList) (rest : String) :
    isAside (front ++ rest) = true := by
  rw [isAside,isTableLine,startsWith_of_append one two,Bool.not_false,Bool.and_true,bne_iff_ne]
  exact append_ne apart rest

theorem aside_unitHead (unit : CompilationUnit) : ∀ line ∈ unitHead unit, isAside line = true := by
  have blank : isAside "" = true := by decide
  have title := @isAside_append "# Methods for " (by decide) (by decide) (by decide)
  have package := @isAside_append "Package: `" (by decide) (by decide) (by decide)
  have extends_ := @isAside_append "Extends: `" (by decide) (by decide) (by decide)
  have implements := @isAside_append "Implements: " (by decide) (by decide) (by decide)
  unfold unitHead
  cases namedSuperclass unit <;> cases unit.interfaces.isEmpty <;>
    simp [blank,title,package,extends_,implements,String.append_assoc]

theorem filter_aside {lines : List String} (aside : ∀ line ∈ lines, isAside line = true) :
    lines.filter isTableLine = [] := by
  rw [List.filter_eq_nil_iff]
  intro line member
  have apart := aside line member
  rw [isAside,Bool.and_eq_true,Bool.not_eq_true'] at apart
  rw [apart.2]
  exact Bool.false_ne_true

theorem filter_table (endpoints : List Endpoint) :
    (endpointTable endpoints).filter isTableLine = endpointTable endpoints :=
  List.filter_eq_self.mpr fun _ => isTableLine_of_mem

/-- The part of the page that tells what a resource serves holds its table. -/
theorem filter_restSection (unit : CompilationUnit)
    (bare : unit.isRestResource = false → endpoints = []) :
    (restSection unit endpoints).filter isTableLine = tableOf endpoints := by
  have opening := @filter_aside ["**This is a REST Resource**",""] (by decide)
  have heading := @filter_aside ["## REST Endpoints",""] (by decide)
  have blank := @filter_aside [""] (by decide)
  unfold restSection tableOf
  cases rest : unit.isRestResource with
  | false => rw [bare rest]; rfl
  | true =>
    cases endpoints.isEmpty with
    | true => exact opening
    | false =>
      simp only [if_true,Bool.false_eq_true,if_false,List.filter_append]
      rw [opening,heading,filter_table,blank,List.nil_append,List.nil_append,List.append_nil]

theorem before_restSection (unit : CompilationUnit) (endpoints : List Endpoint) :
    ∀ line ∈ restSection unit endpoints, line ≠ "## Method Details" := by
  have table : ∀ line ∈ endpointTable endpoints, line ≠ "## Method Details" := by
    rintro _ member rfl
    exact absurd (isTableLine_of_mem member) (by decide)
  unfold restSection
  cases unit.isRestResource with
  | false => nofun
  | true =>
    cases endpoints.isEmpty with
    | true => simp
    | false => simpa [or_imp,forall_and] using table

theorem unitTable_page (unit : CompilationUnit)
    (bare : unit.isRestResource = false → endpoints = []) :
    unitTable (unitLines unit endpoints) = tableOf endpoints := by
  have before : ∀ line ∈ unitHead unit ++ restSection unit endpoints,
      (line != "## Method Details") = true := by
    intro line member
    rcases List.mem_append.mp member with head | rest
    · exact (Bool.and_eq_true _ _ ▸ aside_unitHead unit line head).1
    · exact bne_iff_ne.mpr (before_restSection unit endpoints line rest)
  rw [unitTable,unitLines,List.append_assoc,List.cons_append,Text.takeWhile_stop before (by decide),
    List.filter_append,
    filter_aside (aside_unitHead unit),List.nil_append,filter_restSection unit bare]

end Pages

section Rows
variable {endpoints : List Endpoint}

/-- A row names a verb, which the head of a table does not. -/
theorem isRow_endpointRow {endpoint : Endpoint} (verb : endpoint.httpMethod ∈ Endpoint.verbs) :
    isRow (endpointRow endpoint) = true := by
  have bar : startsWith "| " (endpointRow endpoint) = true := by
    rw [endpointRow_eq]
    exact startsWith_append _ _
  have apart : endpointRow endpoint ∉ endpointTable [] := by
    intro member
    have never : ∀ verb ∈ Endpoint.verbs, ∀ line ∈ endpointTable [],
        Text.occursIn verb.toList line.toList = false := by decide +kernel
    have occurs := Text.occursIn_append endpoint.httpMethod.toList
      (" | " ++ endpoint.consumes.getD "" ++ " | " ++ endpoint.produces.getD "" ++ " |").toList
      ("| " ++ (endpoint.methodName ++ " | " ++ endpoint.path ++ " | ")).toList
    rw [← String.toList_append,← String.toList_append,String.append_assoc,← endpointRow_eq,
      never _ verb _ member] at occurs
    cases occurs
  rw [isRow,bar,Bool.true_and,Bool.not_eq_true',Bool.eq_false_iff,ne_eq,List.contains_iff_mem]
  exact apart

theorem filter_isRow_classSection (group : String × List Endpoint)
    (verbs : ∀ endpoint ∈ group.2, endpoint.httpMethod ∈ Endpoint.verbs) :
    (classSection group).filter isRow = group.2.map endpointRow := by
  have heading : isRow ("### Class: " ++ group.1) = false := by
    rw [isRow,startsWith_of_append (by decide) (by decide),Bool.false_and]
  have rows : (group.2.map endpointRow).filter isRow = group.2.map endpointRow := by
    rw [List.filter_eq_self]
    intro line member
    obtain ⟨endpoint,inside,rfl⟩ := List.mem_map.mp member
    exact isRow_endpointRow (verbs endpoint inside)
  have head : (endpointTable []).filter isRow = [] := by decide +kernel
  have blank : isRow "" = false := by decide
  rw [endpointTable,List.map_nil,List.append_nil] at head
  rw [classSection,endpointTable]
  simp only [List.filter_append,List.filter_cons,List.filter_nil,heading,blank,rows] at head ⊢
  simp [head]

theorem filter_isRow_packageSection (group : String × ClassGroups)
    (verbs : ∀ inner ∈ group.2, ∀ endpoint ∈ inner.2, endpoint.httpMethod ∈ Endpoint.verbs) :
    (packageSection group).filter isRow = group.2.flatMap fun inner => inner.2.map endpointRow := by
  have heading : isRow ("## Package: " ++ group.1) = false := by
    rw [isRow,startsWith_of_append (by decide) (by decide),Bool.false_and]
  have blank : isRow "" = false := by decide
  rw [packageSection,List.filter_append,List.filter_flatMap]
  simp only [List.filter_cons,List.filter_nil,heading,blank]
  exact List.flatMap_congr fun inner member => filter_isRow_classSection inner (verbs inner member)

theorem perm_classGroups (endpoints : List Endpoint) :
    ((classGroups endpoints).flatMap Prod.snd).Perm endpoints := by
  rw [classGroups,List.flatMap_map]
  exact perm_groups (nodup_distinctSorted _) fun endpoint member =>
    mem_distinctSorted.mpr (List.mem_map_of_mem member)

theorem perm_packageGroups (endpoints : List Endpoint) :
    ((packageGroups endpoints).flatMap fun outer => outer.2.flatMap Prod.snd).Perm endpoints := by
  rw [packageGroups,List.flatMap_map]
  refine .trans ?_ (perm_groups (nodup_distinctSorted (endpoints.map Endpoint.package))
    fun endpoint member => mem_distinctSorted.mpr (List.mem_map_of_mem member))
  exact List.Perm.flatMap_left _ fun package _ => perm_classGroups _

/-- The rows of the summary are those of the operations of the model, none lost and none twice. -/
theorem perm_rows {model : Model}
    (verbs : ∀ endpoint ∈ model.endpoints, endpoint.httpMethod ∈ Endpoint.verbs) :
    ((apiLines model).filter isRow).Perm (model.endpoints.map endpointRow) := by
  have all := perm_packageGroups model.endpoints
  have title : isRow "# API Endpoints Summary" = false := by decide
  have blank : isRow "" = false := by decide
  have rows : (apiLines model).filter isRow = ((packageGroups model.endpoints).flatMap fun outer =>
      outer.2.flatMap Prod.snd).map endpointRow := by
    rw [apiLines,List.filter_append,List.filter_flatMap,List.map_flatMap]
    simp only [List.filter_cons,List.filter_nil,title,blank]
    apply List.flatMap_congr
    intro outer member
    rw [filter_isRow_packageSection,List.map_flatMap]
    intro inner inside endpoint among
    apply verbs
    exact all.mem_iff.mp (List.mem_flatMap.mpr
      ⟨outer,member,List.mem_flatMap.mpr ⟨inner,inside,among⟩⟩)
  rw [rows]
  exact all.map endpointRow

end Rows

/-- Operations in a model of files, and in its reports. Each operation belongs to one unit, which
serves it. The page of a unit and the summary show the same table, which is that of the operations
of the unit; the summary has a row for every operation of the model. -/
theorem operations_agree (sources : List (List Char × String)) :
    ∃ built resolved,
      ({} : Model).addAll (sources.filterMap fun source =>
        Extraction.read? source.1 source.2 "java") = .ok built ∧
      built.resolve = .ok resolved ∧
      (∀ endpoint ∈ resolved.endpoints, ∃ unit,
        resolved.units.values.filter (fun unit =>
          unit.package == endpoint.package && unit.name == endpoint.className) = [unit] ∧
        unit.Serves endpoint) ∧
      api resolved = page (apiLines resolved) ∧
      (∀ unit ∈ resolved.units.values,
        methodDetails resolved unit = page (unitLines unit (resolved.endpointsOf unit)) ∧
        unitTable (unitLines unit (resolved.endpointsOf unit)) =
          sectionTable unit.package unit.name (apiLines resolved) ∧
        sectionTable unit.package unit.name (apiLines resolved) =
          if resolved.endpointsOf unit = [] then [] else endpointTable (resolved.endpointsOf unit)) ∧
      ((apiLines resolved).filter isRow).length = resolved.stats.endpointCount := by
  let extractions := sources.filterMap fun source => Extraction.read? source.1 source.2 "java"
  have owned : ∀ extraction ∈ extractions, extraction.Owned := by
    intro extraction member
    obtain ⟨source,_,read⟩ := List.mem_filterMap.mp member
    exact Extraction.owned_of_read read
  obtain ⟨built,run,grown⟩ := @Model.addAll_open {} rfl extractions
  have merged := (grown.reachable .empty).coherent
  have coherent := merged.related
  have served := (Model.served_empty.addAll rfl owned run).related merged
  refine ⟨built,built.related,run,Model.resolve_open grown.isOpen,?_,api_eq _,?_,?_⟩
  · intro endpoint member
    obtain ⟨unit,inside,serves⟩ := served endpoint member
    exact ⟨unit,coherent.filter_eq_owner inside serves,serves⟩
  · intro unit inside
    have bare := fun plain => served.endpointsOf_eq_nil coherent inside plain
    rw [sectionTable_api,unitTable_page unit bare,tableOf]
    refine ⟨methodDetails_eq _ _,rfl,?_⟩
    simp only [List.isEmpty_iff]
  · have rows := @perm_rows built.related fun endpoint member => by
      obtain ⟨unit,_,serves⟩ := served endpoint member
      exact serves.verb
    rw [rows.length_eq,List.length_map]
    rfl

end JavaAtlas.Report
