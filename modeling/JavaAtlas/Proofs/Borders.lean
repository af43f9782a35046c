import JavaAtlas.Proofs.Outcomes
import JavaAtlas.Sorting.Border
import Mathlib.Order.Defs.Unbundled

/-! The search for a border asks a test that may fail and may be unsure: an item that is like the
one sought lies on either side. What is found is still a border, with the items of one side before
it and those of the other behind it. -/
namespace JavaAtlas.Sorting
variable {ε α : Type} {refused : ε → Prop}

/-- Where a border may lie: what is before it is below, what is behind it above. -/
structure IsBorder (size : Nat) (below above : Nat → Prop) (place : Nat) : Prop where
  inside : place ≤ size
  before : ∀ index < place, below index
  behind : ∀ index, place ≤ index → index < size → above index

/-- A test that tells on which side of a border an index lies. -/
structure Separates (refused : ε → Prop) (passes : Nat → Except ε Bool) (size : Nat)
    (below above : Nat → Prop) : Prop where
  told : ∀ index < size, Yields refused
    (fun passed => if passed then below index else above index) (passes index)
  downward : ∀ {first second}, first ≤ second → second < size → below second → below first
  upward : ∀ {first second}, first ≤ second → second < size → above first → above second

section Search
variable {passes : Nat → Except ε Bool} {size : Nat} {below above : Nat → Prop}

theorem bisect_border (separates : Separates refused passes size below above) {low high : Nat}
    (ordered : low ≤ high) (inside : high ≤ size) (before : ∀ index < low, below index)
    (behind : ∀ index, high ≤ index → index < size → above index) :
    Yields refused (IsBorder size below above) (bisect passes low high) := by
  induction low, high using bisect.induct with
  | case1 low high between middle upper lower =>
    rw [bisect,dif_pos between]
    apply (separates.told middle (by omega)).bind
    intro passed side
    cases passed with
    | true =>
      refine upper (by omega) inside (fun index small => ?_) behind
      exact separates.downward (by omega) (by omega) side
    | false =>
      refine lower (by omega) (by omega) before (fun index large short => ?_)
      exact separates.upward large short side
  | case2 low high done =>
    rw [bisect,dif_neg done]
    have met : low = high := by omega
    exact ⟨by omega,before,met ▸ behind⟩

theorem leap_within {holds : Nat → Except ε Bool} {limit : Nat} {near far : Nat → Prop}
    (told : ∀ offset < limit, Yields refused
      (fun holding => if holding then near offset else far offset) (holds offset))
    {last next : Nat} (ordered : last < next) (inside : last < limit) (reached : near last) :
    Yields refused (fun (last,next) =>
      near last ∧ last < next ∧ next ≤ limit ∧ (next < limit → far next))
      (leap holds limit last next) := by
  induction last, next using leap.induct limit with
  | case1 last next short further =>
    rw [leap,dif_pos short]
    apply (told next short).bind
    intro holding side
    cases holding with
    | true => exact further (by omega) short side
    | false => exact ⟨reached,ordered,by omega,fun _ => side⟩
  | case2 last next long =>
    rw [leap,dif_neg long]
    exact ⟨reached,inside,Nat.le_refl limit,fun short => absurd short (by omega)⟩

theorem border_found (separates : Separates refused passes size below above) {hint : Nat}
    (inside : hint < size) :
    Yields refused (IsBorder size below above) (border passes size hint) := by
  apply (separates.told hint inside).bind
  intro passed side
  cases passed with
  | true =>
    have told : ∀ offset < size - hint, Yields refused
        (fun holding => if holding then below (hint + offset) else above (hint + offset))
        (passes (hint + offset)) := fun offset short => separates.told _ (by omega)
    apply (leap_within told (by omega) (by omega : 0 < size - hint) side).bind
    rintro ⟨last,next⟩ ⟨reached,ordered,short,beyond⟩
    apply bisect_border separates (by omega) (by omega)
    · intro index small
      exact separates.downward (by omega) (by omega) reached
    · intro index large small
      exact separates.upward large small (beyond (by omega))
  | false =>
    have told : ∀ offset < hint + 1, Yields refused
        (fun holding => if holding then above (hint - offset) else below (hint - offset))
        ((!·) <$> passes (hint - offset)) := by
      intro offset short
      apply (separates.told (hint - offset) (by omega)).map
      rintro (_ | _) other <;> exact other
    apply (leap_within told (by omega) (by omega : 0 < hint + 1) side).bind
    rintro ⟨last,next⟩ ⟨reached,ordered,short,beyond⟩
    apply bisect_border separates (by omega) (by omega)
    · intro index small
      exact separates.downward (by omega) (by omega) (beyond (by omega))
    · intro index large small
      exact separates.upward large small reached

end Search

/-- A comparison that tells an order between the items it knows. Of items that are alike it may
say either. -/
structure Orders (refused : ε → Prop) (before : α → α → Except ε Bool) (known : α → Prop)
    (le : α → α → Prop) : Prop where
  told : ∀ {first second}, known first → known second → Yields refused
    (fun earlier => if earlier then le first second else le second first) (before first second)

/-- Known items that are in order. -/
structure Row (known : α → Prop) (le : α → α → Prop) (items : List α) : Prop where
  within : ∀ item ∈ items, known item
  ordered : items.Pairwise le

def Below (le : α → α → Prop) (key : α) (items : List α) (index : Nat) : Prop :=
  ∀ item ∈ items[index]?, le item key

def Above (le : α → α → Prop) (key : α) (items : List α) (index : Nat) : Prop :=
  ∀ item ∈ items[index]?, le key item

/-- A number of items that do not come behind the key, with none before it among the others. -/
def Divides (le : α → α → Prop) (key : α) (items : List α) (place : Nat) : Prop :=
  (∀ item ∈ items.take place, le item key) ∧ ∀ item ∈ items.drop place, le key item

section Rows
variable {known : α → Prop} {le : α → α → Prop} {items others : List α}

namespace Row

theorem sublist (row : Row known le items) (part : others.Sublist items) : Row known le others :=
  ⟨fun item member => row.within item (part.subset member),row.ordered.sublist part⟩

theorem take (row : Row known le items) (count : Nat) : Row known le (items.take count) :=
  row.sublist (List.take_sublist count items)

theorem drop (row : Row known le items) (count : Nat) : Row known le (items.drop count) :=
  row.sublist (List.drop_sublist count items)

theorem reverse (row : Row known le items) : Row known (flip le) items.reverse :=
  ⟨fun item member => row.within item (List.mem_reverse.mp member),
    List.pairwise_reverse.mpr row.ordered⟩

theorem append (first : Row known le items) (second : Row known le others)
    (across : ∀ item ∈ items, ∀ other ∈ others, le item other) : Row known le (items ++ others) :=
  ⟨fun item member => (List.mem_append.mp member).elim (first.within item) (second.within item),
    List.pairwise_append.mpr ⟨first.ordered,second.ordered,across⟩⟩

theorem cons (row : Row known le items) {first : α} (knows : known first)
    (less : ∀ item ∈ items, le first item) : Row known le (first :: items) :=
  ⟨List.forall_mem_cons.mpr ⟨knows,row.within⟩,List.pairwise_cons.mpr ⟨less,row.ordered⟩⟩

/-- What does not come behind the first item of a row comes behind none of it. -/
theorem least [IsTrans α le] {key other : α} (row : Row known le (key :: items))
    (small : le other key) : ∀ item ∈ key :: items, le other item := by
  intro item member
  rcases List.mem_cons.mp member with rfl | later
  · exact small
  · exact IsTrans.trans _ _ _ small (List.rel_of_pairwise_cons row.ordered later)

theorem greatest [IsTrans α le] {key other : α} (row : Row known le (items ++ [key]))
    (large : le key other) : ∀ item ∈ items ++ [key], le item other := by
  intro item member
  rcases List.mem_append.mp member with earlier | last
  · have less := (List.pairwise_append.mp row.ordered).2.2 item earlier key List.mem_cons_self
    exact IsTrans.trans _ _ _ less large
  · exact List.mem_singleton.mp last ▸ large

theorem le_of_lt (row : Row known le items) {first second : Nat} (ordered : first < second)
    {item other : α} (here : items[first]? = some item) (there : items[second]? = some other) :
    le item other := by
  obtain ⟨inside,rfl⟩ := List.getElem?_eq_some_iff.mp here
  obtain ⟨beyond,rfl⟩ := List.getElem?_eq_some_iff.mp there
  exact List.pairwise_iff_getElem.mp row.ordered first second inside beyond ordered

end Row

instance isTrans_flip [IsTrans α le] : IsTrans α (flip le) :=
  ⟨fun first second third near far => ‹IsTrans α le›.trans third second first far near⟩

theorem IsBorder.divides {key : α} {place : Nat}
    (found : IsBorder items.length (Below le key items) (Above le key items) place) :
    Divides le key items place := by
  constructor
  · intro item member
    obtain ⟨index,short,rfl⟩ := List.mem_take_iff_getElem.mp member
    exact found.before index (by omega) _ (List.getElem?_eq_getElem _)
  · intro item member
    obtain ⟨index,short,rfl⟩ := List.mem_drop_iff_getElem.mp member
    exact found.behind (place + index) (by omega) (by omega) _ (List.getElem?_eq_getElem _)

section Comparing
variable [IsTrans α le] {before : α → α → Except ε Bool} {key : α}

/-- Asking of each item whether it comes before the key, or whether the key does not come before
it, tells the same two sides. -/
theorem separates_of_told (row : Row known le items) {passes : Nat → Except ε Bool}
    (told : ∀ index item, items[index]? = some item → Yields refused
      (fun passed => if passed then le item key else le key item) (passes index)) :
    Separates refused passes items.length (Below le key items) (Above le key items) where
  told index short := by
    apply (told index _ (List.getElem?_eq_getElem short)).mono
    rintro (_ | _) side item member <;> rw [List.getElem?_eq_getElem short] at member <;>
      exact Option.some.inj member ▸ side
  downward {first second} ordered short side := by
    intro item here
    rcases Nat.lt_or_eq_of_le ordered with less | rfl
    · have there := List.getElem?_eq_getElem short
      exact IsTrans.trans _ _ _ (row.le_of_lt less here there) (side _ there)
    · exact side item here
  upward {first second} ordered short side := by
    intro item there
    rcases Nat.lt_or_eq_of_le ordered with less | rfl
    · have here := List.getElem?_eq_getElem (Nat.lt_trans less short)
      exact IsTrans.trans _ _ _ (side _ here) (row.le_of_lt less here there)
    · exact side item there

theorem separates_liesBefore (orders : Orders refused before known le) (row : Row known le items)
    (keyKnown : known key) :
    Separates refused (liesBefore before key items.toArray) items.length (Below le key items)
      (Above le key items) := by
  apply separates_of_told row
  intro index item here
  rw [liesBefore,List.getElem?_toArray,here]
  exact orders.told (row.within item (List.mem_of_getElem? here)) keyKnown

theorem separates_liesUpTo (orders : Orders refused before known le) (row : Row known le items)
    (keyKnown : known key) :
    Separates refused (liesUpTo before key items.toArray) items.length (Below le key items)
      (Above le key items) := by
  apply separates_of_told row
  intro index item here
  rw [liesUpTo,List.getElem?_toArray,here]
  apply (orders.told keyKnown (row.within item (List.mem_of_getElem? here))).map
  rintro (_ | _) side <;> exact side

end Comparing

end Rows

end JavaAtlas.Sorting
