/-! Texts in the order of their code points. -/
namespace JavaAtlas.Text

def sorted (texts : List String) : List String :=
  texts.mergeSort fun first second => decide (first ≤ second)

/-- The items in increasing order of their texts; items with the same text keep their order. -/
def sortedBy {α : Type} (key : α → String) (items : List α) : List α :=
  items.mergeSort fun first second => decide (key first ≤ key second)

end JavaAtlas.Text
