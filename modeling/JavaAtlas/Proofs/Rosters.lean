import JavaAtlas.Loose.Page
import JavaAtlas.Proofs.Descents

/-! The package summary of a model that was read. Each record adds a name to the list of its
package, also where it takes the place of an earlier one, so that a unit is summed up as often as
records bear its qualified name. -/
namespace JavaAtlas

/-- What falls into exactly one group each is found once in all the groups together. -/
theorem perm_flatMap_filter {γ α : Type} (fits : γ → α → Bool) {groups : List γ} {items : List α}
    (apart : groups.Pairwise fun first second =>
      ∀ item ∈ items, fits first item = true → fits second item = false)
    (covered : ∀ item ∈ items, ∃ group ∈ groups, fits group item = true) :
    (groups.flatMap fun group => items.filter (fits group)).Perm items := by
  induction groups generalizing items with
  | nil =>
    have empty : items = [] := List.eq_nil_iff_forall_not_mem.mpr fun item member => by
      obtain ⟨_,there,_⟩ := covered item member
      nomatch there
    rw [empty]
    rfl
  | cons group rest ih =>
    rw [List.pairwise_cons] at apart
    obtain ⟨first,others⟩ := apart
    have outside : (rest.flatMap fun other => items.filter (fits other)) =
        rest.flatMap fun other => (items.filter (!fits group ·)).filter (fits other) := by
      apply List.flatMap_congr
      intro other there
      rw [List.filter_filter]
      apply List.filter_congr
      intro item member
      cases fitting : fits group item with
      | true => simp [first other there item member fitting]
      | false => simp
    have grouped : (rest.flatMap fun other => items.filter (fits other)).Perm
        (items.filter (!fits group ·)) := by
      rw [outside]
      apply ih
      · exact others.imp fun apart item inside => apart item (List.mem_of_mem_filter inside)
      · intro item inside
        obtain ⟨member,without⟩ := List.mem_filter.mp inside
        obtain ⟨other,there,fitting⟩ := covered item member
        rcases List.mem_cons.mp there with rfl | later
        · simp [fitting] at without
        · exact ⟨other,later,fitting⟩
    rw [List.flatMap_cons]
    exact (grouped.append_left _).trans (List.filter_append_perm (fits group) items)

namespace Loose
open Json (ok_of_bind)

/-- A unit whose fields are texts where reports need texts. -/
structure CompilationUnit.Legible (unit : CompilationUnit) : Prop where
  name : unit.name.text? ≠ none
  package : unit.package.text? ≠ none
  superclass : unit.superclass = .null ∨ unit.superclass.text? ≠ none
  interfaces : ∀ name ∈ unit.interfaces, name.text? ≠ none
  subclasses : ∀ name ∈ unit.subclasses, name.text? ≠ none

namespace CompilationUnit
variable {unit : CompilationUnit}

theorem textFor_yields {refused : Json.Mismatch → Prop} {value : Json} (asked : String)
    (excused : value.text? = none → ∀ mismatch, refused mismatch) :
    Yields refused (fun _ => True) (value.textFor asked) := by
  cases value with
  | str text => exact True.intro
  | _ => exact excused rfl _

theorem inTree_yields (unit : CompilationUnit) :
    Yields (fun _ => ¬ unit.Legible) (fun _ => True) unit.inTree := by
  have each : ∀ name ∈ unit.interfaces,
      Yields (fun _ => ¬ unit.Legible) (fun _ => True) (name.textFor "rsplit") :=
    fun name member => textFor_yields "rsplit" fun other _ legible =>
      legible.interfaces name member other
  exact (Yields.mapM each).bind fun _ _ => True.intro

theorem inPackage_yields (unit : CompilationUnit) :
    Yields (fun _ => ¬ unit.Legible) (fun _ => True) unit.inPackage := by
  rw [inPackage]
  split
  · next given =>
    have asked : Yields (fun _ => ¬ unit.Legible) (fun _ => True)
        (discard (unit.superclass.textFor "rsplit")) := by
      refine (textFor_yields "rsplit" fun other _ legible => ?_).map fun _ holds => holds
      rcases legible.superclass with missing | text
      · rw [missing] at given
        nomatch given
      · exact text other
    exact asked.bind fun _ _ => inTree_yields unit
  · exact inTree_yields unit

theorem package_of_inTree {shown : JavaAtlas.CompilationUnit} (done : unit.inTree = .ok shown) :
    shown.package = unit.package.text := by
  obtain ⟨names,_,done⟩ := ok_of_bind done
  cases done
  rfl

theorem package_of_inPackage {shown : JavaAtlas.CompilationUnit}
    (done : unit.inPackage = .ok shown) : shown.package = unit.package.text := by
  rw [inPackage] at done
  split at done
  · obtain ⟨_,_,done⟩ := ok_of_bind done
    exact package_of_inTree done
  · exact package_of_inTree done

end CompilationUnit

namespace Model

namespace Enrolled
variable {units : List CompilationUnit} {model : Model}

theorem exists_unit (enrolled : Enrolled units model) {entry : Json × List Json}
    (member : entry ∈ model.packages) : ∃ unit ∈ units, unit.package = entry.1 := by
  rw [enrolled.listed] at member
  have keys := (keys_enlistAll units .nil).2 _ (List.mem_map_of_mem member)
  exact List.mem_map.mp (keys.resolve_left List.not_mem_nil)

theorem hashed_of_mem (enrolled : Enrolled units model) {entry : Json × List Json}
    (member : entry ∈ model.packages) : entry.1.asKey = .ok entry.1 := by
  obtain ⟨unit,there,same⟩ := enrolled.exists_unit member
  exact same ▸ enrolled.hashed unit there

theorem apart (enrolled : Enrolled units model) :
    model.packages.Pairwise fun first second => first.1.isMatch second.1 = false := by
  rw [enrolled.listed]
  exact List.pairwise_map.mp (keys_enlistAll units .nil).1

theorem package?_of_mem (enrolled : Enrolled units model) {entry : Json × List Json}
    (member : entry ∈ model.packages) : model.package? entry.1 = some entry := by
  have itself := Json.isMatch_self (enrolled.hashed_of_mem member)
  have apart := enrolled.apart
  rw [package?]
  generalize model.packages = packages at member apart
  induction packages with
  | nil => nomatch member
  | cons first rest ih =>
    rw [List.pairwise_cons] at apart
    rw [List.find?_cons]
    rcases List.mem_cons.mp member with rfl | later
    · rw [itself]
    · rw [apart.1 entry later]
      exact ih later apart.2

theorem names_of_mem (enrolled : Enrolled units model) {entry : Json × List Json}
    (member : entry ∈ model.packages) : entry.2 =
      (units.filter fun unit => unit.package.isMatch entry.1).map CompilationUnit.name := by
  have listed := enrolled.listing_eq entry.1
  have found := enrolled.package?_of_mem member
  rw [package?] at found
  rwa [listing,found] at listed

/-- Every record counts to the entry of exactly one package. -/
theorem perm_flatMap_packages (enrolled : Enrolled units model) :
    (model.packages.flatMap fun entry =>
      units.filter fun unit => unit.package.isMatch entry.1).Perm units := by
  refine perm_flatMap_filter
    (fun (entry : Json × List Json) (unit : CompilationUnit) => unit.package.isMatch entry.1) ?_ ?_
  · refine enrolled.apart.imp_of_mem fun {first second} here there apart unit member fits => ?_
    have hashed := enrolled.hashed unit member
    rw [Bool.eq_false_iff] at apart ⊢
    intro both
    apply apart
    rw [Json.isMatch_iff (enrolled.hashed_of_mem here)]
    exact ((Json.isMatch_iff hashed _).mp fits).symm.trans ((Json.isMatch_iff hashed _).mp both)
  · intro unit member
    have hashed := enrolled.hashed unit member
    have listed := enrolled.listing_eq unit.package
    have inside : unit.name ∈ listing model.packages unit.package := by
      rw [listed]
      exact List.mem_map_of_mem (List.mem_filter.mpr ⟨member,Json.isMatch_self hashed⟩)
    rw [listing] at inside
    cases found : model.packages.find? fun entry => entry.1.isMatch unit.package with
    | none =>
      rw [found] at inside
      exact absurd inside List.not_mem_nil
    | some entry =>
      have there := List.mem_of_find?_eq_some found
      refine ⟨entry,there,?_⟩
      rw [Json.isMatch_comm hashed (enrolled.hashed_of_mem there)]
      have matched := List.find?_some found
      exact matched

theorem names_text (enrolled : Enrolled units model) {entry : Json × List Json}
    (member : entry ∈ model.packages) (odd : ∃ name ∈ entry.2, name.text? = none) :
    ∃ unit ∈ units, ¬ unit.Legible := by
  obtain ⟨name,inside,other⟩ := odd
  rw [enrolled.names_of_mem member] at inside
  obtain ⟨unit,there,rfl⟩ := List.mem_map.mp inside
  exact ⟨unit,List.mem_of_mem_filter there,fun legible => legible.name other⟩

theorem not_legible_of_irregular (enrolled : Enrolled units model) (irregular : model.Irregular) :
    ∃ unit ∈ units, ¬ unit.Legible := by
  obtain ⟨unit,member,odd⟩ := irregular
  refine ⟨unit,enrolled.mem_of_mem_values member,fun legible => ?_⟩
  rcases odd with ⟨mismatch,failed⟩ | ⟨name,there,other⟩
  · rcases legible.superclass with missing | text
    · rw [missing] at failed
      nomatch failed
    · obtain ⟨found,same⟩ := Option.ne_none_iff_exists'.mp text
      rw [Json.text?_eq_some.mp same] at failed
      nomatch failed
  · exact legible.subclasses name there other

end Enrolled

section Summary
variable {units : List CompilationUnit} {model : Model}

/-- What is summed up for the names of a package: the units that the model keeps under them. -/
def summed (model : Model) (package : Json) (names : List Json) : List CompilationUnit :=
  names.filterMap fun name => model.units.get? (qualify package.text name.text)

/-- A package as it is shown, each of its units in the form for this. -/
def Shows (model : Model) (entry : Json × List Json)
    (shown : String × List JavaAtlas.CompilationUnit) : Prop :=
  shown.1 = entry.1.text ∧ ∃ listed, listed.Perm (summed model entry.1 entry.2) ∧
    List.Forall₂ (fun unit shown => unit.inPackage = .ok shown) listed shown.2

theorem shownPackage_yields (enrolled : Enrolled units model) {entry : Json × List Json}
    (member : entry ∈ model.packages) :
    Yields (fun _ => ∃ unit ∈ units, ¬ unit.Legible) (Shows model entry)
      (model.shownPackage entry) := by
  refine ((Json.sorted_yields entry.2).weaken fun _ => enrolled.names_text member).bind ?_
  rintro names ⟨same,_⟩
  let shownAs := fun (unit : CompilationUnit) shown => unit.inPackage = .ok shown
  refine Yields.bind (Yields.filterMapM fun name _ => (?each : Yields _ (Option.Rel shownAs
    (model.units.get? (qualify entry.1.text name.text))) _)) ?all
  case each =>
    cases found : model.units.get? (qualify entry.1.text name.text) with
    | none => exact .none
    | some unit =>
      have inside := (enrolled.kept found).1
      exact (unit.inPackage_yields.itself.weaken fun _ odd => ⟨unit,inside,odd⟩).map
        fun _ done => .some done
  case all =>
    rintro shown ⟨results,related,rfl⟩
    exact ⟨rfl,summed model entry.1 names,same.filterMap _,forall₂_filterMap related⟩

theorem mem_values_of_flatten {trees : List (ClassTree CompilationUnit)}
    (grown : ∀ tree ∈ trees, tree.unit ∈ model.units.values ∧ model.Grown [] tree) :
    ∀ entry ∈ ClassTree.flattenAll 0 trees, entry.1 ∈ model.units.values := by
  intro entry member
  have inside := List.mem_map_of_mem (f := Prod.fst) member
  rw [ClassTree.units_flattenAll,ClassTree.nodesAll_eq] at inside
  obtain ⟨node,there,same⟩ := List.mem_map.mp inside
  obtain ⟨tree,among,within⟩ := List.mem_flatMap.mp there
  exact same ▸ (grown tree among).2.stored (grown tree among).1 node within

/-- The page of a hierarchy shows the packages in some order; only a unit that is not legible
keeps it from being written. -/
theorem hierarchy_yields (enrolled : Enrolled units model) :
    Yields (fun _ => ∃ unit ∈ units, ¬ unit.Legible)
      (fun page => ∃ packages tree entries, page = Report.hierarchyPage packages tree ∧
        entries.Perm model.packages ∧ List.Forall₂ (Shows model) entries packages)
      model.hierarchy := by
  have odd (failing : ∃ key ∈ model.packages.map Prod.fst, key.text? = none) :
      ∃ unit ∈ units, ¬ unit.Legible := by
    obtain ⟨_,there,other⟩ := failing
    obtain ⟨entry,member,rfl⟩ := List.mem_map.mp there
    obtain ⟨unit,inside,same⟩ := enrolled.exists_unit member
    exact ⟨unit,inside,fun legible => legible.package (same ▸ other)⟩
  refine ((Json.sorted_yields (model.packages.map Prod.fst)).weaken fun _ => odd).bind
    fun keys ⟨same,_⟩ => ?_
  have all : (keys.filterMap model.package?).Perm model.packages := by
    have itself : model.packages.filterMap (model.package? ∘ Prod.fst) = model.packages :=
      (List.filterMap_congr fun entry member => enrolled.package?_of_mem member).trans
        List.filterMap_some
    have found := same.filterMap model.package?
    rwa [List.filterMap_map,itself] at found
  have each : ∀ entry ∈ keys.filterMap model.package?,
      Yields (fun _ => ∃ unit ∈ units, ¬ unit.Legible) (Shows model entry)
        (model.shownPackage entry) :=
    fun entry member => shownPackage_yields enrolled (all.mem_iff.mp member)
  refine (Yields.mapM each).bind fun packages shows => ?_
  refine ((forest_yields enrolled).weaken fun _ => enrolled.not_legible_of_irregular).bind
    fun trees ⟨roots,grown⟩ => ?_
  have standing := mem_values_of_flatten fun tree inside =>
    ⟨((roots tree.unit).mp ⟨tree,inside,rfl⟩).1,grown tree inside⟩
  have entries : ∀ entry ∈ ClassTree.flattenAll 0 trees,
      Yields (fun _ => ∃ unit ∈ units, ¬ unit.Legible) (fun _ => True)
        (do return (← entry.1.inTree,entry.2) : Except Json.Mismatch _) := by
    intro entry member
    have inside := enrolled.mem_of_mem_values (standing entry member)
    exact ((entry.1.inTree_yields).weaken fun _ odd => ⟨entry.1,inside,odd⟩).bind
      fun _ _ => True.intro
  exact (Yields.mapM entries).bind fun tree _ => ⟨packages,tree,_,rfl,all,shows⟩

/-- Shown packages taken together. -/
theorem exists_listed {entries : List (Json × List Json)}
    {packages : List (String × List JavaAtlas.CompilationUnit)}
    (shows : List.Forall₂ (Shows model) entries packages) :
    ∃ listed, listed.Perm (entries.flatMap fun entry => summed model entry.1 entry.2) ∧
      List.Forall₂ (fun unit shown => unit.inPackage = .ok shown) listed
        (packages.flatMap Prod.snd) := by
  induction shows with
  | nil => exact ⟨[],.refl _,.nil⟩
  | @cons entry package entries packages first _ ih =>
    obtain ⟨_,here,same,related⟩ := first
    obtain ⟨others,rest,further⟩ := ih
    rw [List.flatMap_cons,List.flatMap_cons]
    exact ⟨here ++ others,same.append rest,List.rel_append related further⟩

section Agreement
variable (enrolled : Enrolled units model)
  (agree : ∀ first ∈ units, ∀ second ∈ units, first.package.isMatch second.package = true →
    first.package.text = second.package.text)
include enrolled agree

/-- Under the names of a package are kept the units that bear the names of its records. -/
theorem summed_eq {entry : Json × List Json} (member : entry ∈ model.packages) :
    summed model entry.1 entry.2 =
      (units.filter fun unit => unit.package.isMatch entry.1).filterMap
        fun unit => model.units.get? unit.qualifiedName := by
  obtain ⟨first,there,same⟩ := enrolled.exists_unit member
  rw [summed]
  conv_lhs => rw [enrolled.names_of_mem member]
  rw [List.filterMap_map]
  apply List.filterMap_congr
  intro unit inside
  obtain ⟨among,fits⟩ := List.mem_filter.mp inside
  have text := agree unit among first there (same ▸ fits)
  rw [Function.comp_apply,CompilationUnit.qualifiedName,text,same]

theorem perm_summed : (model.packages.flatMap fun entry => summed model entry.1 entry.2).Perm
    (units.filterMap fun unit => model.units.get? unit.qualifiedName) := by
  rw [List.flatMap_congr fun entry member => summed_eq enrolled agree member,
    ← List.filterMap_flatMap]
  exact enrolled.perm_flatMap_packages.filterMap _

end Agreement

theorem Enrolled.map_kept (enrolled : Enrolled units model) :
    (units.filterMap fun unit => model.units.get? unit.qualifiedName).map
      CompilationUnit.qualifiedName = units.map CompilationUnit.qualifiedName := by
  rw [List.map_filterMap,← List.filterMap_eq_map]
  apply List.filterMap_congr
  intro unit member
  obtain ⟨other,found⟩ := OrderedMap.exists_of_mem_keys (enrolled.named unit member)
  rw [found,Option.map_some,(enrolled.kept found).2]
  rfl

/-- The kept units, record by record, are those of the model exactly if no two records bear the
same qualified name. -/
theorem Enrolled.perm_kept_iff (enrolled : Enrolled units model) :
    (units.filterMap fun unit => model.units.get? unit.qualifiedName).Perm model.units.values ↔
      (units.map CompilationUnit.qualifiedName).Nodup := by
  constructor
  · intro same
    have named := same.map CompilationUnit.qualifiedName
    rw [enrolled.map_kept,enrolled.map_values] at named
    exact named.nodup_iff.mpr model.units.distinct
  · intro apart
    have kept := (enrolled.perm_iff.mpr apart).filterMap
      fun unit => model.units.get? unit.qualifiedName
    have itself : (model.units.values.filterMap fun unit => model.units.get? unit.qualifiedName) =
        model.units.values :=
      (List.filterMap_congr fun unit member => enrolled.get?_of_mem_values member).trans
        List.filterMap_some
    rw [itself] at kept
    exact kept.symm

/-- The lists of names are those of the units exactly if no two records bear the same qualified
name: a record that was replaced leaves its name behind. -/
theorem Enrolled.listing_perm_iff (enrolled : Enrolled units model) :
    (∀ package, (listing model.packages package).Perm
      ((model.units.values.filter fun unit => unit.package.isMatch package).map
        CompilationUnit.name)) ↔ (units.map CompilationUnit.qualifiedName).Nodup := by
  constructor
  · intro listed
    have distinct : model.units.values.Nodup := by
      apply List.Nodup.of_map CompilationUnit.qualifiedName
      rw [enrolled.map_values]
      exact model.units.distinct
    have part : model.units.values.Subperm units :=
      List.subperm_of_subset distinct fun _ => enrolled.mem_of_mem_values
    rw [← enrolled.perm_iff]
    apply part.perm_of_length_le
    by_contra fewer
    obtain ⟨replaced,further⟩ := part.exists_of_length_lt (Nat.lt_of_not_le fewer)
    have itself := Json.isMatch_self (enrolled.hashed replaced (further.subset List.mem_cons_self))
    have more := (further.filter fun unit => unit.package.isMatch replaced.package).length_le
    have same := (listed replaced.package).length_eq
    rw [enrolled.listing_eq,List.length_map,List.length_map] at same
    rw [List.filter_cons,if_pos itself,List.length_cons] at more
    omega
  · intro apart package
    rw [enrolled.listing_eq]
    exact (((enrolled.perm_iff.mpr apart).symm).filter _).map _

/-- Without repeated names each unit is shown with its own package. -/
theorem package_of_shows (enrolled : Enrolled units model)
    (agree : ∀ first ∈ units, ∀ second ∈ units, first.package.isMatch second.package = true →
      first.package.text = second.package.text)
    (apart : (units.map CompilationUnit.qualifiedName).Nodup) {entry : Json × List Json}
    (member : entry ∈ model.packages) {package : String × List JavaAtlas.CompilationUnit}
    (shows : Shows model entry package) : ∀ shown ∈ package.2, shown.package = package.1 := by
  obtain ⟨title,listed,same,related⟩ := shows
  intro shown inside
  obtain ⟨unit,among,done⟩ := exists_of_mem_right related inside
  rw [summed_eq enrolled agree member] at same
  obtain ⟨record,there,found⟩ := List.mem_filterMap.mp (same.mem_iff.mp among)
  obtain ⟨inside,fits⟩ := List.mem_filter.mp there
  obtain ⟨kept,named⟩ := enrolled.kept found
  obtain ⟨first,early,key⟩ := enrolled.exists_unit member
  have itself : unit = record := List.inj_on_of_nodup_map apart kept inside named
  rw [CompilationUnit.package_of_inPackage done,title,itself,← key]
  exact agree record inside first early (key ▸ fits)

end Summary

/-- What reading makes of records: each unit is kept under its qualified name and each name listed
with its package. Lists and page have each unit once exactly if no two records bear the same
qualified name. -/
theorem lists_of_read {value : Json} {model : Model} (read : ofJson value = .ok model) :
    ∃ units, records value = .ok units ∧
      (∀ name unit, model.units.get? name = some unit → unit ∈ units ∧ unit.qualifiedName = name) ∧
      (∀ unit ∈ units, unit.qualifiedName ∈ model.units.keys) ∧
      (∀ package, listing model.packages package =
        (units.filter fun unit => unit.package.isMatch package).map CompilationUnit.name) ∧
      ((∀ package, (listing model.packages package).Perm
        ((model.units.values.filter fun unit => unit.package.isMatch package).map
          CompilationUnit.name)) ↔ (units.map CompilationUnit.qualifiedName).Nodup) ∧
      ((∀ unit ∈ units, unit.Legible) → ∃ page, model.hierarchy = .ok page) ∧
      ((∀ first ∈ units, ∀ second ∈ units, first.package.isMatch second.package = true →
          first.package.text = second.package.text) →
        ∀ page, model.hierarchy = .ok page → ∃ packages tree listed,
          page = Report.hierarchyPage packages tree ∧
          List.Forall₂ (fun unit shown => unit.inPackage = .ok shown) listed
            (packages.flatMap Prod.snd) ∧
          (listed.Perm model.units.values ↔ (units.map CompilationUnit.qualifiedName).Nodup) ∧
          ((units.map CompilationUnit.qualifiedName).Nodup →
            ∀ package ∈ packages, ∀ shown ∈ package.2, shown.package = package.1)) := by
  obtain ⟨units,given,enrolled⟩ := enrolled_of_read read
  have yields := hierarchy_yields enrolled
  refine ⟨units,given,fun _ _ => enrolled.kept,enrolled.named,enrolled.listing_eq,
    enrolled.listing_perm_iff,?_,?_⟩
  · intro legible
    cases outcome : model.hierarchy with
    | ok page => exact ⟨page,rfl⟩
    | error mismatch =>
      rw [outcome] at yields
      obtain ⟨unit,member,odd⟩ := yields
      exact absurd (legible unit member) odd
  · intro agree page done
    rw [done] at yields
    obtain ⟨packages,tree,entries,written,all,shows⟩ := yields
    obtain ⟨listed,same,related⟩ := exists_listed shows
    have kept := (same.trans (all.flatMap_right _)).trans (perm_summed enrolled agree)
    refine ⟨packages,tree,listed,written,related,?_,?_⟩
    · rw [← enrolled.perm_kept_iff]
      exact ⟨kept.symm.trans,kept.trans⟩
    · intro apart package inside
      obtain ⟨entry,there,showing⟩ := exists_of_mem_right shows inside
      exact package_of_shows enrolled agree apart (all.mem_iff.mp there) showing

/-- Two units of one package. -/
def neighbours : Json :=
  .obj [("units",.arr [
    .obj [("name",.str "A"),("package",.str "p"),("file",.str "A.java")],
    .obj [("name",.str "B"),("package",.str "p"),("file",.str "B.java"),
      ("superclass",.str "p.A")]])]

theorem lists_of_neighbours : ∃ model page, ofJson neighbours = .ok model ∧
    model.hierarchy = .ok page ∧ ∀ package, (listing model.packages package).Perm
      ((model.units.values.filter fun unit => unit.package.isMatch package).map
        CompilationUnit.name) := by
  obtain ⟨model,read⟩ : ∃ model, ofJson neighbours = .ok model := ⟨_,rfl⟩
  obtain ⟨units,given,_,_,_,listed,legible,_⟩ := lists_of_read read
  cases given
  obtain ⟨page,written⟩ := legible (List.forall_mem_cons.mpr
    ⟨⟨nofun,nofun,.inl rfl,nofun,nofun⟩,List.forall_mem_cons.mpr
      ⟨⟨nofun,nofun,.inr nofun,nofun,nofun⟩,nofun⟩⟩)
  exact ⟨model,page,read,written,listed.mpr (by decide)⟩

/-- The same record twice. -/
def twins : Json :=
  let record : Json := .obj [("name",.str "A"),("package",.str "p"),("file",.str "A.java")]
  .obj [("units",.arr [record,record])]

theorem listed_twice : ∃ model, ofJson twins = .ok model ∧ model.units.keys = ["p.A"] ∧
    listing model.packages (.str "p") = [.str "A",.str "A"] ∧
    ¬ (listing model.packages (.str "p")).Perm
      ((model.units.values.filter fun unit => unit.package.isMatch (.str "p")).map
        CompilationUnit.name) :=
  ⟨_,rfl,rfl,rfl,fun same => absurd same.length_eq (by decide)⟩

end Model

end Loose

end JavaAtlas
