/-! Finite maps that remember the order in which their keys first came. A value written under a
known key takes the place of the old one. -/
namespace JavaAtlas

structure OrderedMap (κ α : Type) where
  entries : List (κ × α)
  distinct : (entries.map Prod.fst).Nodup
  deriving DecidableEq

namespace OrderedMap
variable {κ α β : Type}

@[ext] theorem ext {first second : OrderedMap κ α} (same : first.entries = second.entries) :
    first = second := by
  cases first; cases second; simp_all

def empty : OrderedMap κ α := ⟨[],List.nodup_nil⟩

instance : Inhabited (OrderedMap κ α) := ⟨empty⟩

def keys (map : OrderedMap κ α) : List κ := map.entries.map Prod.fst

def values (map : OrderedMap κ α) : List α := map.entries.map Prod.snd

def size (map : OrderedMap κ α) : Nat := map.entries.length

def isEmpty (map : OrderedMap κ α) : Bool := map.entries.isEmpty

variable [DecidableEq κ]

def get? (map : OrderedMap κ α) (key : κ) : Option α := map.entries.lookup key

def contains (map : OrderedMap κ α) (key : κ) : Bool := (map.get? key).isSome

def insertEntry (key : κ) (value : α) : List (κ × α) → List (κ × α)
  | [] => [(key,value)]
  | entry :: rest =>
    if entry.1 = key then (key,value) :: rest else entry :: insertEntry key value rest

theorem keys_insertEntry (key : κ) (value : α) (entries : List (κ × α)) :
    (insertEntry key value entries).map Prod.fst =
      if key ∈ entries.map Prod.fst then entries.map Prod.fst
      else entries.map Prod.fst ++ [key] := by
  induction entries with
  | nil => simp [insertEntry]
  | cons entry rest ih =>
    by_cases same : entry.1 = key
    · simp [insertEntry,same]
    · have other : key ≠ entry.1 := fun h => same h.symm
      simp only [insertEntry,same,if_false,List.map_cons,ih,List.mem_cons,other,false_or]
      split <;> simp

theorem nodup_insertEntry (key : κ) (value : α) {entries : List (κ × α)}
    (distinct : (entries.map Prod.fst).Nodup) :
    ((insertEntry key value entries).map Prod.fst).Nodup := by
  rw [keys_insertEntry]
  split
  · exact distinct
  · next absent =>
    rw [List.nodup_append]
    refine ⟨distinct,by simp,?_⟩
    intro known member other single
    rw [List.mem_singleton] at single
    subst other
    exact fun same => absent (same ▸ member)

def insert (map : OrderedMap κ α) (key : κ) (value : α) : OrderedMap κ α :=
  ⟨insertEntry key value map.entries,nodup_insertEntry key value map.distinct⟩

theorem keys_insert (map : OrderedMap κ α) (key : κ) (value : α) :
    (map.insert key value).keys = if key ∈ map.keys then map.keys else map.keys ++ [key] :=
  keys_insertEntry key value map.entries

def insertAll (map : OrderedMap κ α) (pairs : List (κ × α)) : OrderedMap κ α :=
  pairs.foldl (fun map pair => map.insert pair.1 pair.2) map

def ofList (pairs : List (κ × α)) : OrderedMap κ α := empty.insertAll pairs

omit [DecidableEq κ] in
theorem keys_mapEntries (entries : List (κ × α)) (f : κ → α → β) :
    (entries.map fun entry => (entry.1,f entry.1 entry.2)).map Prod.fst =
      entries.map Prod.fst := by
  simp [Function.comp_def]

omit [DecidableEq κ] in
def mapValues (map : OrderedMap κ α) (f : κ → α → β) : OrderedMap κ β :=
  ⟨map.entries.map fun entry => (entry.1,f entry.1 entry.2),by
    rw [keys_mapEntries]; exact map.distinct⟩

omit [DecidableEq κ] in
theorem nodup_keys (map : OrderedMap κ α) : map.keys.Nodup := map.distinct

omit [DecidableEq κ] in
theorem mem_keys {map : OrderedMap κ α} {key : κ} :
    key ∈ map.keys ↔ ∃ value, (key,value) ∈ map.entries := by
  simp [keys]

omit [DecidableEq κ] in
theorem mem_values {map : OrderedMap κ α} {value : α} :
    value ∈ map.values ↔ ∃ key, (key,value) ∈ map.entries := by
  simp [values]

omit [DecidableEq κ] in
@[simp] theorem keys_mapValues (map : OrderedMap κ α) (f : κ → α → β) :
    (map.mapValues f).keys = map.keys := keys_mapEntries map.entries f

theorem lookup_cons_ite (key : κ) (entry : κ × α) (rest : List (κ × α)) :
    (entry :: rest).lookup key = if key = entry.1 then some entry.2 else rest.lookup key := by
  rw [List.lookup_cons]
  by_cases same : key = entry.1
  · simp [same]
  · have other : (key == entry.1) = false := by simpa using same
    simp [same,other]

theorem lookup_eq_some {entries : List (κ × α)} (distinct : (entries.map Prod.fst).Nodup)
    {key : κ} {value : α} : entries.lookup key = some value ↔ (key,value) ∈ entries := by
  induction entries with
  | nil => simp
  | cons entry rest ih =>
    obtain ⟨known,first⟩ := entry
    simp only [List.map_cons,List.nodup_cons] at distinct
    by_cases same : key = known
    · subst same
      have absent : (key,value) ∉ rest := fun member => distinct.1 (List.mem_map_of_mem member)
      simp [absent,eq_comm]
    · rw [lookup_cons_ite,if_neg same,ih distinct.2]
      simp [same]

theorem get?_eq_some {map : OrderedMap κ α} {key : κ} {value : α} :
    map.get? key = some value ↔ (key,value) ∈ map.entries :=
  lookup_eq_some map.distinct

theorem get?_eq_none {map : OrderedMap κ α} {key : κ} :
    map.get? key = none ↔ key ∉ map.keys := by
  simp only [get?,List.lookup_eq_none_iff,keys,List.mem_map,bne_iff_ne,not_exists,not_and]
  exact ⟨fun apart entry member same => apart entry member same.symm,
    fun apart entry member same => apart entry member same.symm⟩

theorem contains_iff {map : OrderedMap κ α} {key : κ} :
    map.contains key = true ↔ key ∈ map.keys := by
  rw [contains,Option.isSome_iff_ne_none,ne_eq,get?_eq_none,Decidable.not_not]

theorem exists_of_mem_keys {map : OrderedMap κ α} {key : κ} (member : key ∈ map.keys) :
    ∃ value, map.get? key = some value :=
  Option.isSome_iff_exists.mp (contains_iff.mpr member)

theorem mem_keys_of_get? {map : OrderedMap κ α} {key : κ} {value : α}
    (found : map.get? key = some value) : key ∈ map.keys :=
  mem_keys.mpr ⟨value,get?_eq_some.mp found⟩

theorem insertEntry_of_not_mem {key : κ} (value : α) {entries : List (κ × α)}
    (absent : key ∉ entries.map Prod.fst) :
    insertEntry key value entries = entries ++ [(key,value)] := by
  induction entries with
  | nil => rfl
  | cons entry rest ih =>
    simp only [List.map_cons,List.mem_cons,not_or] at absent
    rw [insertEntry,if_neg (Ne.symm absent.1),ih absent.2]
    rfl

theorem entries_insert_of_not_mem {map : OrderedMap κ α} {key : κ} (absent : key ∉ map.keys)
    (value : α) : (map.insert key value).entries = map.entries ++ [(key,value)] :=
  insertEntry_of_not_mem value absent

theorem lookup_insertEntry (key other : κ) (value : α) (entries : List (κ × α)) :
    (insertEntry key value entries).lookup other =
      if other = key then some value else entries.lookup other := by
  induction entries with
  | nil => simp [insertEntry,lookup_cons_ite]
  | cons entry rest ih =>
    rw [insertEntry]
    split
    · next same =>
      subst same
      by_cases equal : other = entry.1 <;> simp [lookup_cons_ite,equal]
    · next apart =>
      rw [lookup_cons_ite,ih,lookup_cons_ite]
      by_cases equal : other = entry.1
      · simp [equal,apart]
      · simp [equal]

theorem get?_insert (map : OrderedMap κ α) (key other : κ) (value : α) :
    (map.insert key value).get? other = if other = key then some value else map.get? other :=
  lookup_insertEntry key other value map.entries

/-- A new value under a known key is not seen by a view that does not tell it from the old. -/
theorem map_entries_insert {γ : Type} {map : OrderedMap κ α} {key : κ} {old value : α}
    (found : map.get? key = some old) (view : κ × α → γ) (same : view (key,value) = view (key,old)) :
    (map.insert key value).entries.map view = map.entries.map view := by
  obtain ⟨entries,distinct⟩ := map
  change entries.lookup key = some old at found
  change (insertEntry key value entries).map view = entries.map view
  clear distinct
  induction entries with
  | nil => simp at found
  | cons entry rest ih =>
    rw [lookup_cons_ite] at found
    rw [insertEntry]
    by_cases first : key = entry.1
    · subst first
      rw [if_pos rfl] at found ⊢
      have equal : entry.2 = old := Option.some.inj found
      rw [List.map_cons,List.map_cons,same,← equal]
    · rw [if_neg first] at found
      rw [if_neg (Ne.symm first),List.map_cons,List.map_cons,ih found]

theorem get?_mapValues (map : OrderedMap κ α) (f : κ → α → β) (key : κ) :
    (map.mapValues f).get? key = (map.get? key).map (f key) := by
  cases found : map.get? key with
  | none =>
    rw [Option.map_none,get?_eq_none,keys_mapValues]
    exact get?_eq_none.mp found
  | some value =>
    rw [Option.map_some,get?_eq_some]
    exact List.mem_map.mpr ⟨(key,value),get?_eq_some.mp found,rfl⟩

/-- A map is fixed by the order of its keys and the value under each. -/
theorem ext_get? {first second : OrderedMap κ α} (sameKeys : first.keys = second.keys)
    (sameValues : ∀ key ∈ first.keys, first.get? key = second.get? key) : first = second := by
  apply ext
  apply List.ext_getElem
  · simpa [keys] using congrArg List.length sameKeys
  · intro i left right
    have key : first.entries[i].1 = second.entries[i].1 := by
      have equal := List.getElem_of_eq sameKeys (by simpa [keys] using left)
      simpa [keys] using equal
    have before : first.get? first.entries[i].1 = some first.entries[i].2 :=
      get?_eq_some.mpr (List.getElem_mem left)
    have after : second.get? second.entries[i].1 = some second.entries[i].2 :=
      get?_eq_some.mpr (List.getElem_mem right)
    rw [sameValues _ (mem_keys_of_get? before),key,after] at before
    exact Prod.ext key (Option.some.inj before).symm

theorem entries_insertAll (map : OrderedMap κ α) {pairs : List (κ × α)}
    (distinct : ((map.entries ++ pairs).map Prod.fst).Nodup) :
    (map.insertAll pairs).entries = map.entries ++ pairs := by
  induction pairs generalizing map with
  | nil => simp [insertAll]
  | cons pair rest ih =>
    have absent : pair.1 ∉ map.keys := by
      intro member
      rw [List.map_append,List.nodup_append] at distinct
      exact distinct.2.2 _ member _ (by simp) rfl
    have next := entries_insert_of_not_mem absent pair.2
    have written : (map.insertAll (pair :: rest)) = (map.insert pair.1 pair.2).insertAll rest := rfl
    rw [written,ih (map.insert pair.1 pair.2) (by simpa [next] using distinct),next]
    simp

theorem get?_insertAll (map : OrderedMap κ α) {pairs : List (κ × α)}
    (distinct : (pairs.map Prod.fst).Nodup) (key : κ) :
    (map.insertAll pairs).get? key = (pairs.lookup key).or (map.get? key) := by
  induction pairs generalizing map with
  | nil => rfl
  | cons pair rest ih =>
    rw [List.map_cons,List.nodup_cons] at distinct
    have written : map.insertAll (pair :: rest) = (map.insert pair.1 pair.2).insertAll rest := rfl
    rw [written,ih _ distinct.2,get?_insert,lookup_cons_ite]
    by_cases same : key = pair.1
    · have absent : rest.lookup key = none := by
        rw [List.lookup_eq_none_iff]
        intro other member
        rw [bne_iff_ne,same]
        intro equal
        exact distinct.1 (equal ▸ List.mem_map_of_mem member)
      rw [absent,if_pos same,if_pos same]
      rfl
    · rw [if_neg same,if_neg same]

theorem entries_ofList {pairs : List (κ × α)} (distinct : (pairs.map Prod.fst).Nodup) :
    (ofList pairs).entries = pairs :=
  entries_insertAll empty distinct

theorem ofList_entries (map : OrderedMap κ α) : ofList map.entries = map :=
  ext (entries_ofList map.distinct)

end OrderedMap

end JavaAtlas
