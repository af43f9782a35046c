import JavaAtlas.Sorting.Border

/-! Merging of two neighbouring runs. It starts from the end at which the shorter run lies. While
one run keeps winning, its items are taken in leaps. -/
namespace JavaAtlas.Sorting
variable {ε α : Type}

/-- The number of wins in a row after which items are taken in leaps. It falls while leaps pay off
and grows when they cease to. -/
abbrev Patience := Nat

abbrev Merging (ε α : Type) := StateT Patience (Except ε) α

/-- The two runs of a merge. The leader gives the first item, and the closer keeps the last one. -/
inductive Side where
  | leader
  | closer
  deriving DecidableEq, Repr

def Side.other : Side → Side
  | .leader => .closer
  | .closer => .leader

/-- A merge under way, seen from the end where it started: items taken, the latest first, and what
is left of the two runs. -/
structure Progress (α : Type) where
  taken : List α := []
  leader : List α
  closer : List α

namespace Progress

def isOver (progress : Progress α) : Bool :=
  progress.leader.isEmpty || progress.closer.length ≤ 1

def left (progress : Progress α) : Side → List α
  | .leader => progress.leader
  | .closer => progress.closer

def setLeft (progress : Progress α) (side : Side) (items : List α) : Progress α :=
  match side with
  | .leader => {progress with leader := items}
  | .closer => {progress with closer := items}

def take (progress : Progress α) (side : Side) (count : Nat) : Progress α :=
  let items := progress.left side
  {progress.setLeft side (items.drop count) with
    taken := (items.take count).reverse ++ progress.taken}

def items (progress : Progress α) : List α :=
  progress.taken.reverse ++ progress.leader ++ progress.closer

end Progress

/-- Whether an item of one side goes before a key of the other, where the second run leads. Of items
that come neither before nor behind each other those of the first run go first. -/
def goesBefore (before : α → α → Except ε Bool) : Side → α → Array α → Nat → Except ε Bool
  | .leader => liesBefore before
  | .closer => liesUpTo before

/-- How to merge from one end: who of two items leads, how many items of a side go before a key of the
other, and the side that leaps first. -/
structure Direction (ε α : Type) where
  leads : α → α → Except ε Bool
  reach : Side → List α → α → Except ε Nat
  first : Side

/-- From the front, where the second run leads. -/
def Direction.forward (before : α → α → Except ε Bool) : Direction ε α where
  leads leader closer := before leader closer
  reach side items key := border (goesBefore before side key items.toArray) items.length 0
  first := .closer

/-- From the back, where the first run leads; both runs are reversed. -/
def Direction.backward (before : α → α → Except ε Bool) : Direction ε α where
  leads leader closer := before closer leader
  reach side items key :=
    (items.length - ·) <$>
      border (goesBefore before side.other key items.reverse.toArray) items.length
        (items.length - 1)
  first := .leader

/-- Takes items one by one until the merge is over or one run has won often enough in a row. -/
def takeSingly (direction : Direction ε α) (patience leaderWins closerWins : Nat)
    (progress : Progress α) : Except ε (Progress α) :=
  match progress with
  | ⟨taken,leader :: leaders,closer :: next :: closers⟩ => do
    if ← direction.leads leader closer then
      let progress := ⟨leader :: taken,leaders,closer :: next :: closers⟩
      if patience ≤ leaderWins + 1 then return progress
      else takeSingly direction patience (leaderWins + 1) 0 progress
    else
      let progress := ⟨closer :: taken,leader :: leaders,next :: closers⟩
      if patience ≤ closerWins + 1 then return progress
      else takeSingly direction patience 0 (closerWins + 1) progress
  | other => .ok other
termination_by progress.leader.length + progress.closer.length

/-- Takes as many items of one side as go before the next one of the other, and then this one. -/
def takeLeap (direction : Direction ε α) (side : Side) (progress : Progress α) :
    Except ε (Nat × Progress α) :=
  match progress.isOver, progress.left side.other with
  | false, key :: _ => do
    let reach ← direction.reach side (progress.left side) key
    let next := progress.take side reach
    return (reach,if next.isOver then next else next.take side.other 1)
  | _, _ => .ok (0,progress)

def leapBoth (direction : Direction ε α) (progress : Progress α) :
    Except ε (Nat × Progress α) := do
  let (reach,progress) ← takeLeap direction direction.first progress
  let (other,progress) ← takeLeap direction direction.first.other progress
  return (max reach other,progress)

def worthwhile : Nat := 7

/-- Takes items in leaps while they pay off. Every round takes at least two items or is the last
one, so as much fuel as there are items is enough. -/
def takeInLeaps (direction : Direction ε α) : Nat → Progress α → Merging ε (Progress α)
  | 0, progress => return progress
  | fuel + 1, progress => do
    modify fun patience => if 1 < patience then patience - 1 else patience
    let (reach,next) ← leapBoth direction progress
    if next.isOver then return next
    else if worthwhile ≤ reach then takeInLeaps direction fuel next
    else
      modify (· + 1)
      return next

/-- Takes items singly and in leaps by turns until the merge is over. Every turn takes at least one
item. -/
def takeAll (direction : Direction ε α) : Nat → Progress α → Merging ε (Progress α)
  | 0, progress => return progress
  | fuel + 1, progress => do
    let progress ← takeSingly direction (← get) 0 0 progress
    if progress.isOver then return progress
    else
      modify (· + 1)
      let progress ← takeInLeaps direction fuel progress
      if progress.isOver then return progress else takeAll direction fuel progress

def mergeFrom (direction : Direction ε α) (progress : Progress α) : Merging ε (List α) := do
  let begun := progress.take .leader 1
  return (← takeAll direction begun.items.length begun).items

/-- Merges two runs of which no item at the start of the first or at the end of the second is in
its place already. -/
def mergeInner (before : α → α → Except ε Bool) (first second : List α) :
    Merging ε (List α) := do
  if first.length ≤ second.length then
    mergeFrom (.forward before) {leader := second,closer := first}
  else
    return (← mergeFrom (.backward before)
      {leader := first.reverse,closer := second.reverse}).reverse

/-- Merges two neighbouring runs. What lies in place at the start of the first one and at the end
of the second one stays there. -/
def merge (before : α → α → Except ε Bool) (first second : List α) : Merging ε (List α) := do
  match second.head?, first.getLast? with
  | some head, some last =>
    let start ← border (liesUpTo before head first.toArray) first.length 0
    if start == first.length then return first ++ second
    else
      let stop ← border (liesBefore before last second.toArray) second.length (second.length - 1)
      let inner ← mergeInner before (first.drop start) (second.take stop)
      return first.take start ++ inner ++ second.drop stop
  | _, _ => return first ++ second

end JavaAtlas.Sorting
