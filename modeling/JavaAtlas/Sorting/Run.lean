import JavaAtlas.Sorting.Border

/-! Runs of items that are in order already. Short ones are made longer item by item. -/
namespace JavaAtlas.Sorting
variable {ε α : Type}

/-- The items that continue a run after `last`, in reverse and behind `done`, and the rest. In a
rising run no item comes before its neighbour, in a falling one every item does. -/
def continueRun (before : α → α → Except ε Bool) (falling : Bool) (last : α) (done : List α) :
    List α → Except ε (List α × List α)
  | [] => .ok (last :: done,[])
  | item :: rest => do
    if (← before item last) == falling then continueRun before falling item (last :: done) rest
    else return (last :: done,item :: rest)

def firstRun (before : α → α → Except ε Bool) : List α → Except ε (List α × List α)
  | first :: second :: rest => do
    if ← before second first then continueRun before true second [first] rest
    else
      let (run,rest) ← continueRun before false second [first] rest
      return (run.reverse,rest)
  | short => .ok (short,[])

/-- A run with one more item, which goes behind all that it does not come before. -/
def insertInto (before : α → α → Except ε Bool) (run : List α) (item : α) :
    Except ε (List α) := do
  let place ← bisect (liesUpTo before item run.toArray) 0 run.length
  return run.take place ++ item :: run.drop place

def runOf (before : α → α → Except ε Bool) (length : Nat) (items : List α) :
    Except ε (List α × List α) := do
  let (run,rest) ← firstRun before items
  let missing := length - run.length
  return (← (rest.take missing).foldlM (insertInto before) run,rest.drop missing)

def rowLimit : Nat := 64

/-- Length of a shortest run for a number of items: the number is halved until it lies below the
limit, and one is added if a half was not whole. -/
def runLength (count : Nat) : Nat :=
  if _ : rowLimit ≤ count then
    if count % 2 = 0 then runLength (count / 2) else halves (count / 2) + 1
  else count
termination_by count
decreasing_by simp_all [rowLimit]; omega
where
  halves (count : Nat) : Nat :=
    if _ : rowLimit ≤ count then halves (count / 2) else count
  termination_by count
  decreasing_by simp_all [rowLimit]; omega

end JavaAtlas.Sorting
