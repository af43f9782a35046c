import JavaAtlas.Sorting.Merge
import JavaAtlas.Sorting.Run

/-! Stable sorting that makes use of the order that is there: the runs of the items are merged,
neighbours with neighbours, in the order of a nearly balanced tree. A comparison may fail, and the
first failure is that of the whole. Which comparisons are made is fixed, so that the result is
defined also for items that have no consistent order. -/
namespace JavaAtlas.Sorting
variable {ε α : Type}

/-- A run that waits to be merged, with the index of its first item and the power of the boundary
behind it. -/
structure Pending (α : Type) where
  start : Nat
  items : List α
  power : Nat := 0

/-- The depth in a balanced tree over all items at which the middles of two neighbouring runs
part: the first binary place in which they differ as fractions of the whole. -/
def boundaryPower (total start first second : Nat) : Nat :=
  let middle := 2 * start + first
  let other := middle + first + second
  (((List.range (total + 1)).find? fun place =>
    Nat.pow 2 place * middle / total != Nat.pow 2 place * other / total).getD total) + 1

def join (before : α → α → Except ε Bool) (first second : Pending α) :
    Merging ε (Pending α) := do
  return {start := first.start,items := ← merge before first.items second.items}

/-- Merges the last waiting run with those before it as long as the boundary between them has a
greater power than the one behind. -/
def settle (before : α → α → Except ε Bool) (power : Nat) (last : Pending α) :
    List (Pending α) → Merging ε (List (Pending α))
  | [] => return [{last with power}]
  | previous :: others => do
    if power < previous.power then settle before power (← join before previous last) others
    else return {last with power} :: previous :: others

def enqueue (before : α → α → Except ε Bool) (total : Nat) (waiting : List (Pending α))
    (items : List α) : Merging ε (List (Pending α)) := do
  match waiting with
  | [] => return [{start := 0,items}]
  | last :: others =>
    let power := boundaryPower total last.start last.items.length items.length
    let settled ← settle before power last others
    return {start := last.start + last.items.length,items} :: settled

/-- Merges all waiting runs. The last two go first, unless the one before them is shorter than the
last one. -/
def collapse (before : α → α → Except ε Bool) : List (Pending α) → Merging ε (List α)
  | [] => return []
  | [only] => return only.items
  | [last,previous] => return (← join before previous last).items
  | last :: previous :: first :: others => do
    if first.items.length < last.items.length then
      collapse before (last :: (← join before first previous) :: others)
    else collapse before ((← join before previous last) :: first :: others)
termination_by waiting => waiting.length

/-- Divides the items into runs and merges them as they come. Every run has at least one item, so
as much fuel as there are items is enough. -/
def sortRuns (before : α → α → Except ε Bool) (total : Nat) :
    Nat → List (Pending α) → List α → Merging ε (List α)
  | 0, waiting, _ => collapse before waiting
  | fuel + 1, waiting, items => do
    if items.isEmpty then collapse before waiting
    else
      let (run,rest) ← runOf before (runLength total) items
      sortRuns before total fuel (← enqueue before total waiting run) rest

def sorted (before : α → α → Except ε Bool) (items : List α) : Except ε (List α) :=
  (sortRuns before items.length items.length [] items).run' worthwhile

end JavaAtlas.Sorting
