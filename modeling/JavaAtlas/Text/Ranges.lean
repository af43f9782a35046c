/-! Sets of code points given as closed intervals, and membership by bisection. -/
namespace JavaAtlas.Text

/-- Closed intervals of code points, in increasing order and apart from each other. -/
structure Ranges where
  intervals : Array (Nat × Nat)

namespace Ranges

/-- Bisection among the intervals with an index from `low` up to `high`, `high` excluded. -/
def containsBetween (ranges : Ranges) (point low high : Nat) : Bool :=
  if low < high then
    let middle := (low + high) / 2
    match ranges.intervals[middle]? with
    | none => false
    | some (first,last) =>
      if point < first then ranges.containsBetween point low middle
      else if last < point then ranges.containsBetween point (middle + 1) high
      else true
  else false
termination_by high - low

def contains (ranges : Ranges) (point : Nat) : Bool :=
  ranges.containsBetween point 0 ranges.intervals.size

end Ranges

end JavaAtlas.Text
