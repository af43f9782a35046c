import Mathlib.Data.List.Forall2

/-! Results that may be failures: what holds of a result, if there is one, and which failures may
take its place. -/
namespace JavaAtlas
variable {ε α β : Type} {refused : ε → Prop}

/-- A result is as it should be, or it is a failure that may occur. -/
def Yields (refused : ε → Prop) (good : α → Prop) : Except ε α → Prop
  | .ok value => good value
  | .error failure => refused failure

namespace Yields
variable {good : α → Prop} {better : β → Prop} {first : Except ε α}

theorem bind {next : α → Except ε β} (begun : Yields refused good first)
    (ended : ∀ value, good value → Yields refused better (next value)) :
    Yields refused better (first >>= next) := by
  cases first with
  | ok value => exact ended value begun
  | error failure => exact begun

theorem map {f : α → β} (begun : Yields refused good first)
    (ended : ∀ value, good value → better (f value)) : Yields refused better (f <$> first) := by
  cases first with
  | ok value => exact ended value begun
  | error failure => exact begun

theorem mono {wider : α → Prop} (begun : Yields refused good first)
    (ended : ∀ value, good value → wider value) : Yields refused wider first := by
  cases first with
  | ok value => exact ended value begun
  | error failure => exact begun

theorem itself (begun : Yields refused good first) :
    Yields refused (fun value => first = .ok value) first := by
  cases first with
  | ok value => rfl
  | error failure => exact begun

theorem weaken {wider : ε → Prop} (begun : Yields refused good first)
    (excused : ∀ failure, refused failure → wider failure) : Yields wider good first := by
  cases first with
  | ok value => exact begun
  | error failure => exact excused failure begun

end Yields

theorem exists_of_mem_left {related : α → β → Prop} {items : List α} {others : List β}
    (all : List.Forall₂ related items others) {item : α} (member : item ∈ items) :
    ∃ other ∈ others, related item other := by
  induction all with
  | nil => nomatch member
  | cons first _ ih =>
    rcases List.mem_cons.mp member with rfl | later
    · exact ⟨_,List.mem_cons_self,first⟩
    · obtain ⟨other,there,fits⟩ := ih later
      exact ⟨other,List.mem_cons_of_mem _ there,fits⟩

theorem exists_of_mem_right {related : α → β → Prop} {items : List α} {others : List β}
    (all : List.Forall₂ related items others) {other : β} (member : other ∈ others) :
    ∃ item ∈ items, related item other :=
  exists_of_mem_left all.flip member

theorem forall₂_filterMap {γ : Type} {related : β → γ → Prop} {f : α → Option β}
    {items : List α} {results : List (Option γ)}
    (all : List.Forall₂ (fun item => Option.Rel related (f item)) items results) :
    List.Forall₂ related (items.filterMap f) (results.filterMap id) := by
  induction all with
  | nil => exact .nil
  | @cons item result items results first _ ih =>
    rw [List.filterMap_cons]
    generalize f item = found at first
    cases first with
    | none => exact ih
    | some fits => exact .cons fits ih

namespace Yields

theorem mapM {f : α → Except ε β} {good : α → β → Prop} {items : List α}
    (each : ∀ item ∈ items, Yields refused (good item) (f item)) :
    Yields refused (List.Forall₂ good items) (items.mapM f) := by
  induction items with
  | nil => exact .nil
  | cons item rest ih =>
    rw [List.forall_mem_cons] at each
    rw [List.mapM_cons]
    exact each.1.bind fun first fits => (ih each.2).bind fun others all => .cons fits all

theorem filterMapM {f : α → Except ε (Option β)} {good : α → Option β → Prop} {items : List α}
    (each : ∀ item ∈ items, Yields refused (good item) (f item)) :
    Yields refused (fun kept => ∃ results, List.Forall₂ good items results ∧
      results.filterMap id = kept) (items.filterMapM f) := by
  induction items with
  | nil => exact ⟨[],.nil,rfl⟩
  | cons item rest ih =>
    rw [List.forall_mem_cons] at each
    rw [List.filterMapM_cons]
    refine each.1.bind fun first fits => ?_
    cases first with
    | none =>
      exact (ih each.2).mono fun kept ⟨results,all,same⟩ =>
        ⟨none :: results,.cons fits all,same⟩
    | some value =>
      exact (ih each.2).bind fun kept ⟨results,all,same⟩ =>
        ⟨some value :: results,.cons fits all,congrArg (value :: ·) same⟩

theorem filterAuxM {passes : α → Except ε Bool} {items kept : List α}
    (excused : ∀ item ∈ items, ∀ failure, passes item = .error failure → refused failure) :
    Yields refused (fun all => ∀ item, item ∈ all ↔
      item ∈ kept ∨ item ∈ items ∧ passes item = .ok true) (items.filterAuxM passes kept) := by
  induction items generalizing kept with
  | nil => exact fun item => by simp
  | cons first rest ih =>
    rw [List.forall_mem_cons] at excused
    change Yields refused _
      (passes first >>= fun passed => rest.filterAuxM passes (cond passed (first :: kept) kept))
    cases answer : passes first with
    | error failure => exact excused.1 failure answer
    | ok passed =>
      refine (ih excused.2).mono fun all members item => (members item).trans ?_
      by_cases same : item = first
      · subst same
        cases passed <;> simp [answer]
      · cases passed <;> simp [same]

theorem filterM {passes : α → Except ε Bool} {items : List α}
    (excused : ∀ item ∈ items, ∀ failure, passes item = .error failure → refused failure) :
    Yields refused (fun all => ∀ item, item ∈ all ↔ item ∈ items ∧ passes item = .ok true)
      (items.filterM passes) :=
  (filterAuxM excused).bind fun all members item => by
    simpa using members item

end Yields

end JavaAtlas
