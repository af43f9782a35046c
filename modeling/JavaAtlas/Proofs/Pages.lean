import JavaAtlas.Proofs.Effects
import JavaAtlas.Proofs.Paths
import JavaAtlas.Proofs.Reachable
import JavaAtlas.Proofs.Storage
import JavaAtlas.Proofs.Words
import JavaAtlas.Report.Files
import Mathlib.Data.List.Nodup

/-! Reports on the disk. What is written last at a place is found there; and two units share a
place as soon as their packages and names run together into one file name. -/
namespace JavaAtlas.Report
variable {model : Model} {output path : Path} {world after : World} {written : List Path}
  {report : String × String} {reports rest : List (String × String)} {unit other : CompilationUnit}

/-- Writes one report below a directory. -/
def put (output : Path) (report : String × String) : Action Path := do
  let path := output.child report.1
  Action.write path report.2
  return path

theorem writeAll_eq (model : Model) (output : Path) :
    writeAll model output =
      (do Action.makeDirectories (output.child "method-details"); (files model).mapM (put output)) :=
  rfl

theorem put_iff : (put output report).run.run world = (.ok path,after) ↔
    path = output.child report.1 ∧ ∃ disk,
      world.disk.write world.here path (Text.Utf8.encode report.2.toList) = .ok disk ∧
        after = {world with disk} := by
  rw [put,Action.run_bind,Action.run_write]
  cases written : world.disk.write world.here (output.child report.1)
    (Text.Utf8.encode report.2.toList) with
  | error fault =>
    constructor
    · intro done
      cases done
    · rintro ⟨rfl,disk,done,_⟩
      rw [written] at done
      cases done
  | ok disk =>
    constructor
    · intro done
      cases done
      exact ⟨rfl,disk,written,rfl⟩
    · rintro ⟨rfl,next,done,rfl⟩
      rw [written] at done
      cases done
      rfl

/-- Where a report is written. -/
def placeOf (output : Path) (here : Place) (report : String × String) : Place :=
  (output.child report.1).place here

/-- Written reports change the places of reports and nothing else. -/
theorem keeps_of_puts (done : (reports.mapM (put output)).run.run world = (.ok written,after)) :
    written = reports.map (fun report => output.child report.1) ∧
      world.Keeps (fun place => ∀ report ∈ reports, place ≠ placeOf output world.here report)
        after := by
  induction reports generalizing world written with
  | nil =>
    cases done
    exact ⟨rfl,refl_of (World.Keeps _) after⟩
  | cons report reports ih =>
    rw [List.mapM_cons] at done
    obtain ⟨path,middle,first,done⟩ := Action.run_bind_ok done
    obtain ⟨paths,last,others,done⟩ := Action.run_bind_ok done
    cases done
    obtain ⟨rfl,disk,wrote,rfl⟩ := put_iff.mp first
    obtain ⟨rfl,keeps⟩ := ih others
    refine ⟨rfl,?_⟩
    obtain ⟨place,reached,outside,rfl⟩ := Disk.write_iff.mp wrote
    have same := Disk.place_of_locate reached
    have step : world.Keeps (fun place => ∀ other ∈ report :: reports,
        place ≠ placeOf output world.here other)
        {world with disk := world.disk.withFile place (Text.Utf8.encode report.2.toList)} := by
      refine ⟨⟨rfl,rfl,rfl⟩,Disk.keeps_withFile outside ?_⟩
      intro apart
      exact apart report List.mem_cons_self same
    apply trans_of (World.Keeps _) step
    apply keeps.mono
    intro place apart other member
    exact apart other (List.mem_cons_of_mem _ member)

/-- What is written last at a place is found there. -/
theorem found_of_puts {front : List (String × String)}
    (done : ((front ++ report :: rest).mapM (put output)).run.run world = (.ok written,after)) :
    after.disk.locate after.here (output.child report.1) = .ok (placeOf output world.here report) ∧
      ((∀ other ∈ rest, placeOf output world.here other ≠ placeOf output world.here report) →
        after.disk.node? (placeOf output world.here report) =
          some (.file (Text.Utf8.encode report.2.toList))) := by
  rw [List.mapM_append] at done
  obtain ⟨_,before,first,done⟩ := Action.run_bind_ok done
  obtain ⟨_,_,last,done⟩ := Action.run_bind_ok done
  cases done
  rw [List.mapM_cons] at last
  obtain ⟨_,middle,one,last⟩ := Action.run_bind_ok last
  obtain ⟨_,_,others,last⟩ := Action.run_bind_ok last
  cases last
  obtain ⟨rfl,disk,wrote,rfl⟩ := put_iff.mp one
  have here := (keeps_of_puts first).2.here
  have keeps := (keeps_of_puts others).2
  obtain ⟨place,reached,node⟩ := Disk.found_of_write wrote
  have same : place = placeOf output world.here report := by
    rw [Disk.place_of_locate reached,here,placeOf]
  subst same
  constructor
  · rw [keeps.here]
    exact keeps.disk.locate reached
  · intro apart
    apply keeps.disk.file _ node
    intro other member
    rw [here]
    exact (apart other member).symm

/-- Whether a place has the name of a report. -/
def IsReport (place : Place) : Prop :=
  ∃ above name, place = above ++ [name] ∧ ".md".toList <:+ name.toList

theorem isReport_child {name : String} (ends : ".md".toList <:+ name.toList) (output : Path)
    (here : Place) : IsReport ((output.child name).place here) := by
  obtain ⟨front,last,parts,tail⟩ := Path.last_partsOf (by decide) (by decide) ends
  have named : last ≠ ".." := by
    rintro rfl
    exact absurd tail (by decide)
  have whole : ∃ above, (output.child name).parts = above ++ [last] := by
    rw [Path.child,Path.join]
    split
    · exact ⟨output.parts ++ front,by rw [Path.parts_ofText,parts,List.append_assoc]⟩
    · exact ⟨front,parts⟩
  obtain ⟨above,same⟩ := whole
  exact ⟨_,last,Path.place_of_last same named here,tail⟩

/-- The reports of the whole model. -/
def summaries (model : Model) : List (String × String) :=
  [("api-summary.md",api model),("class-hierarchy.md",hierarchy model)] ++
    ((enums? model).map fun text => ("enum-summary.md",text)).toList

def pageOf (model : Model) (unit : CompilationUnit) : String × String :=
  ("method-details/" ++ pageFile unit,methodDetails model unit)

theorem files_eq (model : Model) :
    files model = summaries model ++ model.units.values.map (pageOf model) := rfl

def pagePath (output : Path) (unit : CompilationUnit) : Path :=
  output.child ("method-details/" ++ pageFile unit)

theorem names_summaries (model : Model) : ((summaries model).map Prod.fst).Sublist
    ["api-summary.md","class-hierarchy.md","enum-summary.md"] := by
  rw [summaries]
  cases enums? model with
  | none => exact .cons_cons _ (.cons_cons _ (List.nil_sublist _))
  | some text => exact .refl _

theorem ends_pageFile (unit : CompilationUnit) : ".md".toList <:+ (pageFile unit).toList := by
  rw [pageFile,String.toList_append]
  exact List.suffix_append _ _

theorem ends_of_files {report : String × String} (member : report ∈ files model) :
    ".md".toList <:+ report.1.toList := by
  have names : ∀ name ∈ ["api-summary.md","class-hierarchy.md","enum-summary.md"],
      ".md".toList <:+ name.toList := by
    decide
  rw [files_eq,List.mem_append] at member
  rcases member with summary | page
  · exact names report.1 ((names_summaries model).mem (List.mem_map_of_mem summary))
  · obtain ⟨unit,_,rfl⟩ := List.mem_map.mp page
    change _ <:+ ("method-details/" ++ pageFile unit).toList
    rw [String.toList_append]
    exact (ends_pageFile unit).trans (List.suffix_append _ _)

/-- Whatever comes of writing reports, it changes no other files than reports. -/
theorem within_writeAll (model : Model) (output : Path) :
    (writeAll model output).Within (World.Keeps fun place => ¬ IsReport place) := by
  rw [writeAll_eq]
  refine (Action.within_makeDirectories _).bind fun _ => ?_
  apply Action.Within.mapM
  intro report member
  refine Action.Within.bind (Action.within_write ?_ _) fun _ => Action.within_pure _
  intro here other
  exact other (isReport_child (ends_of_files member) output here)

theorem puts_of_writeAll (done : (writeAll model output).run.run world = (.ok written,after)) :
    ∃ made : World, made.here = world.here ∧
      ((files model).mapM (put output)).run.run made = (.ok written,after) := by
  rw [writeAll_eq] at done
  obtain ⟨_,made,first,rest⟩ := Action.run_bind_ok done
  have keeps : world.Keeps (fun _ => True) _ :=
    Action.within_makeDirectories (output.child "method-details") world
  rw [first] at keeps
  exact ⟨made,keeps.here,rest⟩

/-- The page of a unit is the page of the last unit that has its place. -/
theorem page_found (done : (writeAll model output).run.run world = (.ok written,after))
    {front rest : List CompilationUnit} {last : CompilationUnit}
    (split : model.units.values = front ++ last :: rest)
    (apart : ∀ other ∈ rest,
      (pagePath output other).place world.here ≠ (pagePath output last).place world.here)
    (member : unit ∈ model.units.values)
    (same : (pagePath output last).place world.here = (pagePath output unit).place world.here) :
    after.disk.read after.here (pagePath output unit) =
      .ok (Text.Utf8.encode (methodDetails model last).toList) := by
  obtain ⟨made,here,puts⟩ := puts_of_writeAll done
  have among {unit : CompilationUnit} {before behind : List CompilationUnit}
      (values : model.units.values = before ++ unit :: behind) :
      files model = (summaries model ++ before.map (pageOf model)) ++
        pageOf model unit :: behind.map (pageOf model) := by
    rw [files_eq,values,List.map_append,List.map_cons,List.append_assoc]
  obtain ⟨before,behind,values⟩ := List.append_of_mem member
  have reached := (found_of_puts (among values ▸ puts)).1
  have node := (found_of_puts (among split ▸ puts)).2
  rw [List.forall_mem_map] at node
  -- The path of the unit may be another text than that of the last one, so it is followed apart.
  rw [← here] at same apart
  refine Disk.read_iff.mpr ⟨_,reached,?_⟩
  change after.disk.node? ((pagePath output unit).place made.here) = _
  rw [← same]
  exact node apart

theorem last_with_key {α β : Type} (key : α → β) {items : List α} {item : α}
    (member : item ∈ items) : ∃ front last rest, items = front ++ last :: rest ∧
      key last = key item ∧ ∀ other ∈ rest, key other ≠ key last := by
  induction items generalizing item with
  | nil => cases member
  | cons first items ih =>
    by_cases later : ∃ other ∈ items, key other = key item
    · obtain ⟨other,inside,same⟩ := later
      obtain ⟨front,last,rest,rfl,key,apart⟩ := ih inside
      exact ⟨first :: front,last,rest,rfl,key.trans same,apart⟩
    · have apart : ∀ other ∈ items, key other ≠ key item :=
        fun other inside same => later ⟨other,inside,same⟩
      rcases List.mem_cons.mp member with rfl | inside
      · exact ⟨[],item,items,rfl,rfl,apart⟩
      · exact absurd rfl (apart item inside)

theorem isPart_pageFile (unit : CompilationUnit) : Path.isPart (pageFile unit) = true := by
  apply Path.isPart_of_length
  rw [pageFile,String.toList_append,List.length_append]
  change 2 ≤ _ + 3
  omega

theorem ofText_page (solid : '/' ∉ (pageFile unit).toList) :
    Path.ofText ("method-details/" ++ pageFile unit) = ⟨0,["method-details",pageFile unit]⟩ := by
  have text : ("method-details/" ++ pageFile unit).toList =
      "method-details".toList ++ '/' :: (pageFile unit).toList := by
    have front : "method-details/".toList = "method-details".toList ++ ['/'] := by decide
    rw [String.toList_append,front,List.append_assoc,List.singleton_append]
  have parts : (Path.ofText ("method-details/" ++ pageFile unit)).parts =
      ["method-details",pageFile unit] := by
    rw [Path.parts_ofText,text,Path.partsOf_append,Path.partsOf_single solid,String.ofList_toList,
      List.filter_cons_of_pos (isPart_pageFile unit)]
    rfl
  have slashes : (Path.ofText ("method-details/" ++ pageFile unit)).slashes = 0 :=
    Path.slashes_ofText text (by decide)
  rw [← parts,← slashes]

theorem pagePath_eq (solid : '/' ∉ (pageFile unit).toList) :
    pagePath output unit = output.join ⟨0,["method-details",pageFile unit]⟩ := by
  rw [pagePath,Path.child,ofText_page solid]

theorem place_pagePath (solid : '/' ∉ (pageFile unit).toList) (here : Place) :
    (pagePath output unit).place here =
      output.place here ++ ["method-details"] ++ [pageFile unit] := by
  have named : pageFile unit ≠ ".." := by
    intro above
    have joined : '_' ∈ (pageFile unit).toList := by simp [pageFile]
    rw [above] at joined
    exact absurd joined (by decide)
  rw [pagePath_eq solid,Path.place_join,List.foldl_cons,List.foldl_cons,List.foldl_nil,
    Place.step_of_ne named,Place.step_of_ne (by decide)]

/-- Units with different page files have pages of their own. -/
theorem place_injective (output : Path) (here : Place) (solid : '/' ∉ (pageFile unit).toList)
    (whole : '/' ∉ (pageFile other).toList)
    (same : (pagePath output unit).place here = (pagePath output other).place here) :
    pageFile unit = pageFile other := by
  rw [place_pagePath solid,place_pagePath whole] at same
  exact (List.cons.inj (List.append_cancel_left same)).1

theorem paths_eq (plain : ∀ unit ∈ model.units.values, '/' ∉ (pageFile unit).toList) :
    (files model).map (fun report => output.child report.1) =
      (((summaries model).map Prod.fst).map fun name => output.join ⟨0,[name]⟩) ++
        (model.units.values.map pageFile).map fun name =>
          output.join ⟨0,["method-details",name]⟩ := by
  have names : ∀ name ∈ ["api-summary.md","class-hierarchy.md","enum-summary.md"],
      '/' ∉ name.toList ∧ Path.isPart name = true := by
    decide
  rw [files_eq,List.map_append,List.map_map,List.map_map,List.map_map]
  refine congrArg₂ (· ++ ·) ?_ ?_
  · apply List.map_congr_left
    intro report member
    obtain ⟨solid,part⟩ := names report.1 ((names_summaries model).mem (List.mem_map_of_mem member))
    dsimp only [Function.comp_apply]
    rw [Path.child,Path.ofText_name solid part]
  · apply List.map_congr_left
    intro unit member
    dsimp only [Function.comp_apply,pageOf]
    exact pagePath_eq (plain unit member)

theorem nodup_paths (plain : ∀ unit ∈ model.units.values, '/' ∉ (pageFile unit).toList) :
    ((files model).map fun report => output.child report.1).Nodup ↔
      (model.units.values.map pageFile).Nodup := by
  have join {first second : List String}
      (same : output.join ⟨0,first⟩ = output.join ⟨0,second⟩) : first = second :=
    List.append_cancel_left (Path.mk.inj same).2
  have above : Function.Injective fun name => output.join ⟨0,[name]⟩ :=
    fun _ _ same => (List.cons.inj (join same)).1
  have below : Function.Injective fun name => output.join ⟨0,["method-details",name]⟩ :=
    fun _ _ same => (List.cons.inj (List.cons.inj (join same)).2).1
  rw [paths_eq plain,List.nodup_append,List.nodup_map_iff above,List.nodup_map_iff below]
  constructor
  · exact fun distinct => distinct.2.1
  · intro distinct
    refine ⟨(names_summaries model).nodup (by decide),distinct,?_⟩
    rintro _ first _ second rfl
    obtain ⟨name,_,rfl⟩ := List.mem_map.mp first
    obtain ⟨page,_,same⟩ := List.mem_map.mp second
    cases join same

/-- The package of a unit as it stands in the name of its page. -/
def flattened (package : String) : List Char :=
  package.toList.map fun c => if c == '.' then '_' else c

theorem flattened_injective {package others : String} (plain : '_' ∉ package.toList)
    (clear : '_' ∉ others.toList) (same : flattened package = flattened others) :
    package = others := by
  have back {text : List Char} (free : '_' ∉ text) :
      (text.map fun c => if c == '.' then '_' else c).map (fun c => if c == '_' then '.' else c) =
        text := by
    rw [List.map_map]
    apply (List.map_congr_left _).trans (List.map_id text)
    intro c member
    have other : c ≠ '_' := fun mark => free (mark ▸ member)
    by_cases dot : c = '.'
    · simp [dot]
    · simp [dot,other]
  have undone := congrArg (List.map fun c => if c == '_' then '.' else c) same
  rw [flattened,flattened,back plain,back clear] at undone
  exact String.toList_injective undone

/-- Without underscores the name of a page tells the package and the name of its unit. -/
theorem pageFile_injective (plain : '_' ∉ unit.package.toList ∧ '_' ∉ unit.name.toList)
    (clear : '_' ∉ other.package.toList ∧ '_' ∉ other.name.toList)
    (same : pageFile unit = pageFile other) :
    unit.package = other.package ∧ unit.name = other.name := by
  have text (unit : CompilationUnit) :
      (pageFile unit).toList = flattened unit.package ++ '_' :: (unit.name ++ ".md").toList := by
    simp [pageFile,flattened]
  have solid {name : String} (free : '_' ∉ name.toList) : '_' ∉ (name ++ ".md").toList := by
    rw [String.toList_append,List.mem_append,not_or]
    exact ⟨free,by decide⟩
  have chars := congrArg String.toList same
  rw [text,text] at chars
  have packages := congrArg (Text.beforeLast '_') chars
  rw [Text.beforeLast_append (solid plain.2),Text.beforeLast_append (solid clear.2)] at packages
  rw [packages] at chars
  have names := (List.cons.inj (List.append_cancel_left chars)).2
  rw [String.toList_append,String.toList_append] at names
  exact ⟨flattened_injective plain.1 clear.1 packages,
    String.toList_injective (List.append_cancel_right names)⟩

theorem pageFiles_nodup (reachable : model.Reachable)
    (clear : ∀ unit ∈ model.units.values, '_' ∉ unit.package.toList ∧ '_' ∉ unit.name.toList) :
    (model.units.values.map pageFile).Nodup := by
  have distinct := reachable.coherent.nodup_qualifiedNames
  refine List.Nodup.map_on ?_ (List.Nodup.of_map _ distinct)
  intro unit member other among same
  obtain ⟨package,name⟩ := pageFile_injective (clear unit member) (clear other among) same
  apply List.inj_on_of_nodup_map distinct member among
  rw [CompilationUnit.qualifiedName,CompilationUnit.qualifiedName,package,name]

/-- The page of the other unit is what the page file of the unit holds. -/
def Shows (model : Model) (output : Path) (world : World) (unit other : CompilationUnit) : Prop :=
  world.disk.read world.here (pagePath output unit) =
    .ok (Text.Utf8.encode (methodDetails model other).toList)

/-- Once the reports are written, the page file of every unit holds the page of the last unit with
the same place. All paths that were written differ and units keep their own pages, if the names of
the page files differ; and these differ where no package and no name has an underscore. -/
theorem pages_written (reachable : model.Reachable)
    (done : (writeAll model output).run.run world = (.ok written,after)) :
    (∀ unit ∈ model.units.values, ∃ front last rest, model.units.values = front ++ last :: rest ∧
      (pagePath output last).place world.here = (pagePath output unit).place world.here ∧
      (∀ other ∈ rest,
        (pagePath output other).place world.here ≠ (pagePath output last).place world.here) ∧
      Shows model output after unit last) ∧
    ((∀ unit ∈ model.units.values, '/' ∉ (pageFile unit).toList) →
      (written.Nodup ↔ (model.units.values.map pageFile).Nodup) ∧
      ((model.units.values.map pageFile).Nodup →
        ∀ unit ∈ model.units.values, Shows model output after unit unit)) ∧
    ((∀ unit ∈ model.units.values, '_' ∉ unit.package.toList ∧ '_' ∉ unit.name.toList) →
      (model.units.values.map pageFile).Nodup) := by
  have shown (unit : CompilationUnit) (member : unit ∈ model.units.values) :
      ∃ front last rest, model.units.values = front ++ last :: rest ∧
        (pagePath output last).place world.here = (pagePath output unit).place world.here ∧
        (∀ other ∈ rest,
          (pagePath output other).place world.here ≠ (pagePath output last).place world.here) ∧
        Shows model output after unit last := by
    obtain ⟨front,last,rest,split,same,apart⟩ :=
      last_with_key (fun unit => (pagePath output unit).place world.here) member
    exact ⟨front,last,rest,split,same,apart,page_found done split apart member same⟩
  refine ⟨shown,?_,pageFiles_nodup reachable⟩
  intro plain
  obtain ⟨made,_,puts⟩ := puts_of_writeAll done
  rw [(keeps_of_puts puts).1]
  refine ⟨nodup_paths plain,?_⟩
  intro distinct unit member
  obtain ⟨front,last,rest,split,same,_,shows⟩ := shown unit member
  have among : last ∈ model.units.values := by simp [split]
  have file := place_injective output world.here (plain last among) (plain unit member) same
  rw [List.inj_on_of_nodup_map distinct among member file] at shows
  exact shows

theorem pages_written_apart :
    let cart : CompilationUnit := {name := "Cart",package := "shop.web",file := "Cart.java"}
    let item : CompilationUnit := {name := "Item",package := "shop.web",file := "Item.java"}
    let first := ((Model.Change.add {unit := cart}).run.run {}).2
    let model := ((Model.Change.add {unit := item}).run.run first).2
    ∃ written after, (writeAll model (Path.ofText "out")).run.run {} = (.ok written,after) ∧
      written.Nodup ∧ Shows model (Path.ofText "out") after cart cart ∧
      Shows model (Path.ofText "out") after item item := by
  intro cart item first model
  have reachable : model.Reachable := .add (.add .empty _) _
  have values : model.units.values = [cart,item] := by decide +kernel
  obtain ⟨written,after,done⟩ := Action.run_of_isOk
    (show ((writeAll model (Path.ofText "out")).run.run {}).1.isOk = true by decide +kernel)
  obtain ⟨_,own,distinct⟩ := pages_written reachable done
  rw [values] at own distinct
  obtain ⟨nodup,shows⟩ := own (by decide +kernel)
  have files := distinct (by decide +kernel)
  have pages := shows files
  rw [List.forall_mem_cons,List.forall_mem_singleton] at pages
  exact ⟨written,after,done,nodup.mpr files,pages⟩

/-- Packages and names that run together: two classes share one page file, and the page of the
first is lost. -/
theorem pages_overwritten :
    let inner : CompilationUnit := {name := "C",package := "a.b",file := "a/b/C.java"}
    let outer : CompilationUnit := {name := "b_C",package := "a",file := "a/b_C.java"}
    let first := ((Model.Change.add {unit := inner}).run.run {}).2
    let merged := ((Model.Change.add {unit := outer}).run.run first).2
    let model := (Model.Change.resolve.run.run merged).2
    ∃ written after, (writeAll model (Path.ofText "out")).run.run {} = (.ok written,after) ∧
      model.Reachable ∧ ¬ written.Nodup ∧ model.units.values = [inner,outer] ∧
      pagePath (Path.ofText "out") inner = pagePath (Path.ofText "out") outer ∧
      Shows model (Path.ofText "out") after inner outer ∧
      ¬ Shows model (Path.ofText "out") after inner inner := by
  intro inner outer first merged model
  have values : model.units.values = [inner,outer] := by decide +kernel
  have path : pagePath (Path.ofText "out") inner = pagePath (Path.ofText "out") outer := by
    decide +kernel
  have paths : ¬ ((files model).map fun report => (Path.ofText "out").child report.1).Nodup := by
    decide +kernel
  have texts : Text.Utf8.encode (methodDetails model outer).toList ≠
      Text.Utf8.encode (methodDetails model inner).toList := by
    decide +kernel
  obtain ⟨written,after,done⟩ := Action.run_of_isOk
    (show ((writeAll model (Path.ofText "out")).run.run {}).1.isOk = true by decide +kernel)
  obtain ⟨made,_,puts⟩ := puts_of_writeAll done
  have shows : Shows model (Path.ofText "out") after inner outer := by
    have split : model.units.values = [inner] ++ outer :: [] := values
    apply page_found done split
    · exact nofun
    · rw [values]
      exact List.mem_cons_self
    · rw [path]
  refine ⟨written,after,done,.resolve (.add (.add .empty _) _),?_,values,path,shows,?_⟩
  · rwa [(keeps_of_puts puts).1]
  · intro own
    exact texts (Except.ok.inj (shows.symm.trans own))

end JavaAtlas.Report
