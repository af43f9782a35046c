import JavaAtlas.Loose.Model
import JavaAtlas.Proofs.Document
import JavaAtlas.Proofs.Values
import Mathlib.Data.List.Nodup

/-! What a loose model keeps of the records it was read from. -/
namespace JavaAtlas

namespace OrderedMap
variable {κ α : Type} [DecidableEq κ]

theorem mem_of_get?_insertAll {map : OrderedMap κ α} {pairs : List (κ × α)} {key : κ} {value : α}
    (found : (map.insertAll pairs).get? key = some value) :
    (key,value) ∈ pairs ∨ map.get? key = some value := by
  induction pairs generalizing map with
  | nil => exact .inr found
  | cons pair rest ih =>
    rcases ih found with later | before
    · exact .inl (List.mem_cons_of_mem pair later)
    · rw [get?_insert] at before
      split at before
      · next same =>
        have entry : (key,value) = pair := Prod.ext same (Option.some.inj before).symm
        exact .inl (entry ▸ List.mem_cons_self)
      · exact .inr before

theorem mem_keys_insertAll {map : OrderedMap κ α} {pairs : List (κ × α)} {key : κ} :
    key ∈ (map.insertAll pairs).keys ↔ key ∈ map.keys ∨ key ∈ pairs.map Prod.fst := by
  induction pairs generalizing map with
  | nil => simp [insertAll]
  | cons pair rest ih =>
    have written : map.insertAll (pair :: rest) = (map.insert pair.1 pair.2).insertAll rest := rfl
    rw [written,ih,keys_insert,List.map_cons,List.mem_cons]
    split
    · next known =>
      constructor
      · rintro (before | later)
        · exact .inl before
        · exact .inr (.inr later)
      · rintro (before | rfl | later)
        · exact .inl before
        · exact .inl known
        · exact .inr later
    · rw [List.mem_append,List.mem_singleton,or_assoc]

end OrderedMap

namespace Loose
open Json (ok_of_bind)

namespace Model

/-- The units of a document, in the order of their records. -/
def records (value : Json) : Except Json.Mismatch (List CompilationUnit) := do
  (← (← value.getOr "units" (.arr [])).members).mapM CompilationUnit.ofJson

def enlistAll (packages : List (Json × List Json)) (units : List CompilationUnit) :
    List (Json × List Json) :=
  units.foldl (fun packages unit => enlist unit.package unit.name packages) packages

def keyed (units : List CompilationUnit) : List (String × CompilationUnit) :=
  units.map fun unit => (unit.qualifiedName,unit)

theorem ok_of_enter {values : List Json} {start model : Model}
    (entered : values.foldlM enter start = .ok model) :
    ∃ units, values.mapM CompilationUnit.ofJson = .ok units ∧
      (∀ unit ∈ units, unit.package.asKey = .ok unit.package) ∧
      model.units = start.units.insertAll (keyed units) ∧
      model.packages = enlistAll start.packages units := by
  induction values generalizing start with
  | nil =>
    cases entered
    exact ⟨[],rfl,nofun,rfl,rfl⟩
  | cons value rest ih =>
    rw [List.foldlM_cons] at entered
    obtain ⟨next,entry,further⟩ := ok_of_bind entered
    obtain ⟨unit,read,entry⟩ := ok_of_bind entry
    obtain ⟨package,key,entry⟩ := ok_of_bind entry
    obtain rfl := Json.eq_of_asKey key
    obtain ⟨units,others,keys,stored,listed⟩ := ih further
    cases entry
    refine ⟨unit :: units,?_,List.forall_mem_cons.mpr ⟨key,keys⟩,stored,listed⟩
    rw [List.mapM_cons,read,others]
    rfl

/-- A model whose units are those of the records, each under its qualified name, and whose names
were listed record by record. -/
structure Enrolled (units : List CompilationUnit) (model : Model) : Prop where
  hashed : ∀ unit ∈ units, unit.package.asKey = .ok unit.package
  kept : ∀ {name unit}, model.units.get? name = some unit →
    unit ∈ units ∧ unit.qualifiedName = name
  named : ∀ unit ∈ units, unit.qualifiedName ∈ model.units.keys
  listed : model.packages = enlistAll [] units

theorem enrolled_of_read {value : Json} {model : Model} (read : ofJson value = .ok model) :
    ∃ units, records value = .ok units ∧ Enrolled units model := by
  obtain ⟨entries,given,read⟩ := ok_of_bind read
  obtain ⟨values,members,read⟩ := ok_of_bind read
  obtain ⟨start,entered,read⟩ := ok_of_bind read
  obtain ⟨units,each,hashed,stored,listed⟩ := ok_of_enter entered
  -- What is read after the units changes neither them nor the lists of names.
  iterate 10 obtain ⟨_,_,read⟩ := ok_of_bind read
  cases read
  refine ⟨units,?_,hashed,?_,?_,listed⟩
  · change value.getOr "units" (.arr []) >>= _ = _
    rw [given]
    change entries.members >>= _ = _
    rw [members]
    exact each
  · intro name unit found
    rw [stored] at found
    obtain ⟨other,member,same⟩ :=
      List.mem_map.mp ((OrderedMap.mem_of_get?_insertAll found).resolve_right nofun)
    cases same
    exact ⟨member,rfl⟩
  · intro unit member
    rw [stored,OrderedMap.mem_keys_insertAll,keyed,List.map_map]
    exact .inr (List.mem_map_of_mem member)

namespace Enrolled
variable {units : List CompilationUnit} {model : Model}

theorem map_values (enrolled : Enrolled units model) :
    model.units.values.map CompilationUnit.qualifiedName = model.units.keys := by
  rw [OrderedMap.values,OrderedMap.keys,List.map_map]
  apply List.map_congr_left
  intro entry member
  exact (enrolled.kept (OrderedMap.get?_eq_some.mpr member)).2

theorem get?_of_mem_values (enrolled : Enrolled units model) {unit : CompilationUnit}
    (member : unit ∈ model.units.values) : model.units.get? unit.qualifiedName = some unit := by
  obtain ⟨name,entry⟩ := OrderedMap.mem_values.mp member
  have found := OrderedMap.get?_eq_some.mpr entry
  rwa [(enrolled.kept found).2]

theorem mem_of_mem_values (enrolled : Enrolled units model) {unit : CompilationUnit}
    (member : unit ∈ model.units.values) : unit ∈ units :=
  (enrolled.kept (enrolled.get?_of_mem_values member)).1

/-- No record takes the place of another one exactly if their qualified names are distinct. -/
theorem perm_iff (enrolled : Enrolled units model) :
    model.units.values.Perm units ↔ (units.map CompilationUnit.qualifiedName).Nodup := by
  have distinct : (model.units.values.map CompilationUnit.qualifiedName).Nodup := by
    rw [enrolled.map_values]
    exact model.units.distinct
  constructor
  · intro same
    exact ((same.map _).nodup_iff).mp distinct
  · intro apart
    rw [List.perm_ext_iff_of_nodup (List.Nodup.of_map _ distinct) (List.Nodup.of_map _ apart)]
    intro unit
    constructor
    · exact enrolled.mem_of_mem_values
    · intro member
      obtain ⟨other,found⟩ := OrderedMap.exists_of_mem_keys (enrolled.named unit member)
      obtain ⟨there,same⟩ := enrolled.kept found
      rw [← List.inj_on_of_nodup_map apart there member same]
      exact OrderedMap.mem_values.mpr ⟨_,OrderedMap.get?_eq_some.mp found⟩

end Enrolled

/-- The names that are listed with a package. -/
def listing (packages : List (Json × List Json)) (package : Json) : List Json :=
  ((packages.find? fun entry => entry.1.isMatch package).map Prod.snd).getD []

theorem listing_cons (entry : Json × List Json) (rest : List (Json × List Json)) (package : Json) :
    listing (entry :: rest) package =
      if entry.1.isMatch package then entry.2 else listing rest package := by
  rw [listing,List.find?_cons]
  split <;> simp_all [listing]

section Listing
variable {packages : List (Json × List Json)} {package : Json} {units : List CompilationUnit}

theorem keys_enlist (keys : ∀ entry ∈ packages, entry.1.asKey = .ok entry.1)
    (key : package.asKey = .ok package) (name : Json) :
    ∀ entry ∈ enlist package name packages, entry.1.asKey = .ok entry.1 := by
  induction packages with
  | nil => exact List.forall_mem_singleton.mpr key
  | cons entry rest ih =>
    rw [List.forall_mem_cons] at keys
    rw [enlist]
    split
    · exact List.forall_mem_cons.mpr keys
    · exact List.forall_mem_cons.mpr ⟨keys.1,ih keys.2⟩

/-- A name is added where its package is found, so that values that match share their list. -/
theorem listing_enlist (keys : ∀ entry ∈ packages, entry.1.asKey = .ok entry.1)
    (key : package.asKey = .ok package) (name sought : Json) :
    listing (enlist package name packages) sought =
      listing packages sought ++ if package.isMatch sought then [name] else [] := by
  induction packages with
  | nil =>
    rw [enlist,listing_cons]
    rfl
  | cons entry rest ih =>
    obtain ⟨known,names⟩ := entry
    rw [List.forall_mem_cons] at keys
    have first := Json.isMatch_iff keys.1
    have second := Json.isMatch_iff key sought
    rw [enlist]
    split
    · next same =>
      have alike : known.isMatch sought = package.isMatch sought := by
        rw [Bool.eq_iff_iff,first sought,second,(first package).mp same]
      rw [listing_cons,listing_cons,alike]
      split <;> simp
    · next apart =>
      rw [listing_cons,ih keys.2,listing_cons]
      split
      · next found =>
        have other : package.isMatch sought ≠ true := fun both =>
          apart ((first package).mpr (((first sought).mp found).trans (second.mp both).symm))
        rw [if_neg other,List.append_nil]
      · rfl

/-- With a package are listed the names of its records, in their order and with repetitions. -/
theorem listing_enlistAll (keys : ∀ entry ∈ packages, entry.1.asKey = .ok entry.1)
    (unitKeys : ∀ unit ∈ units, unit.package.asKey = .ok unit.package) (sought : Json) :
    listing (enlistAll packages units) sought = listing packages sought ++
      (units.filter fun unit => unit.package.isMatch sought).map CompilationUnit.name := by
  induction units generalizing packages with
  | nil => exact (List.append_nil _).symm
  | cons unit rest ih =>
    rw [List.forall_mem_cons] at unitKeys
    have next := ih (keys_enlist keys unitKeys.1 unit.name) unitKeys.2
    rw [listing_enlist keys unitKeys.1] at next
    refine next.trans ?_
    rw [List.filter_cons,List.append_assoc]
    split <;> rfl

/-- Packages that match each other have one entry, with the first of them as its key. -/
theorem map_fst_enlist (package name : Json) (packages : List (Json × List Json)) :
    (enlist package name packages).map Prod.fst = packages.map Prod.fst ++
      if packages.any fun entry => entry.1.isMatch package then [] else [package] := by
  induction packages with
  | nil => rfl
  | cons entry rest ih =>
    rw [enlist,List.any_cons]
    split
    · next same => simp [same]
    · next apart =>
      rw [Bool.not_eq_true] at apart
      rw [apart,Bool.false_or,List.map_cons,ih]
      rfl

theorem keys_enlistAll (units : List CompilationUnit)
    (apart : (packages.map Prod.fst).Pairwise fun first second => first.isMatch second = false) :
    ((enlistAll packages units).map Prod.fst).Pairwise
        (fun first second => first.isMatch second = false) ∧
      ∀ key ∈ (enlistAll packages units).map Prod.fst,
        key ∈ packages.map Prod.fst ∨ key ∈ units.map CompilationUnit.package := by
  induction units generalizing packages with
  | nil => exact ⟨apart,fun _ => .inl⟩
  | cons unit rest ih =>
    have keys := map_fst_enlist unit.package unit.name packages
    have next : ((enlist unit.package unit.name packages).map Prod.fst).Pairwise
        fun first second => first.isMatch second = false := by
      rw [keys]
      split
      · rwa [List.append_nil]
      · next absent =>
        refine List.pairwise_append.mpr ⟨apart,List.pairwise_singleton _ _,?_⟩
        simpa using absent
    obtain ⟨further,each⟩ := ih next
    refine ⟨further,fun key member => ?_⟩
    rcases each key member with before | later
    · rw [keys,List.mem_append] at before
      rcases before with old | new
      · exact .inl old
      · split at new
        · nomatch new
        · exact .inr (List.mem_cons.mpr (.inl (List.mem_singleton.mp new)))
    · exact .inr (List.mem_cons_of_mem _ later)

end Listing

namespace Enrolled
variable {units : List CompilationUnit} {model : Model}

theorem listing_eq (enrolled : Enrolled units model) (package : Json) :
    listing model.packages package =
      (units.filter fun unit => unit.package.isMatch package).map CompilationUnit.name := by
  rw [enrolled.listed]
  exact listing_enlistAll (List.forall_mem_nil _) enrolled.hashed package

end Enrolled

end Model

end Loose

end JavaAtlas
