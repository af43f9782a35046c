/-! Search for the border in a row of items, of which the first ones pass a test and the others do
not. The test is asked as seldom as possible. Where it is not consistent there may be several
borders, and the order of the questions decides which one is found. -/
namespace JavaAtlas.Sorting
variable {ε α : Type}

def bisect (passes : Nat → Except ε Bool) (low high : Nat) : Except ε Nat :=
  if _ : low < high then do
    let middle := low + (high - low) / 2
    if ← passes middle then bisect passes (middle + 1) high else bisect passes low middle
  else .ok low
termination_by high - low

/-- The last offset of which something holds and the first one of which it does not, or the limit.
The offsets grow in leaps, each at least twice as far as the one before. -/
def leap (holds : Nat → Except ε Bool) (limit last next : Nat) : Except ε (Nat × Nat) :=
  if _ : next < limit then do
    if ← holds next then leap holds limit next (2 * next + 1) else return (last,next)
  else return (last,limit)
termination_by limit - next

/-- The border among `size` items, sought in leaps away from a hint and then by halving. -/
def border (passes : Nat → Except ε Bool) (size hint : Nat) : Except ε Nat := do
  if ← passes hint then
    let (last,next) ← leap (fun offset => passes (hint + offset)) (size - hint) 0 1
    bisect passes (hint + last + 1) (hint + next)
  else
    let (last,next) ← leap (fun offset => (!·) <$> passes (hint - offset)) (hint + 1) 0 1
    bisect passes (hint + 1 - next) (hint - last)

def liesBefore (before : α → α → Except ε Bool) (key : α) (items : Array α) (index : Nat) :
    Except ε Bool :=
  match items[index]? with
  | some item => before item key
  | none => .ok false

def liesUpTo (before : α → α → Except ε Bool) (key : α) (items : Array α) (index : Nat) :
    Except ε Bool :=
  match items[index]? with
  | some item => (!·) <$> before key item
  | none => .ok false

end JavaAtlas.Sorting
