import JavaAtlas.Text.Order
import Mathlib.Data.List.Nodup
import Mathlib.Data.String.Basic

/-! Sorted texts: the same texts in increasing order, strictly so where none comes twice. -/
namespace JavaAtlas.Text
variable {α : Type}

theorem perm_sorted (texts : List String) : (sorted texts).Perm texts :=
  List.mergeSort_perm texts _

theorem mem_sorted {text : String} {texts : List String} : text ∈ sorted texts ↔ text ∈ texts :=
  (perm_sorted texts).mem_iff

theorem perm_sortedBy (key : α → String) (items : List α) : (sortedBy key items).Perm items :=
  List.mergeSort_perm items _

theorem mem_sortedBy {key : α → String} {item : α} {items : List α} :
    item ∈ sortedBy key items ↔ item ∈ items :=
  (perm_sortedBy key items).mem_iff

theorem pairwise_sortedBy (key : α → String) (items : List α) :
    (sortedBy key items).Pairwise fun first second => key first ≤ key second := by
  have ordered : (sortedBy key items).Pairwise fun first second =>
      decide (key first ≤ key second) = true := by
    apply List.pairwise_mergeSort
    · intro first second third
      simpa using le_trans
    · intro first second
      simpa using le_total (key first) (key second)
  simpa using ordered

theorem strict_sortedBy {key : α → String} {items : List α} (distinct : (items.map key).Nodup) :
    ((sortedBy key items).map key).Pairwise (· < ·) := by
  have same := ((perm_sortedBy key items).map key).nodup_iff.mpr distinct
  have ordered := List.pairwise_map.mpr (pairwise_sortedBy key items)
  exact ordered.imp₂ (fun _ _ below apart => lt_of_le_of_ne below apart) same

theorem strict_sorted {texts : List String} (distinct : texts.Nodup) :
    (sorted texts).Pairwise (· < ·) := by
  have mapped := @strict_sortedBy String id texts (by rwa [List.map_id])
  rwa [List.map_id] at mapped

end JavaAtlas.Text
