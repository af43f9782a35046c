import JavaAtlas.Proofs.Borders
import JavaAtlas.Sorting.Merge

/-! Merging two runs gives one run of the same items, from whichever end it starts and whether the
items are taken singly or in leaps. What was taken lies before what is left, and the last item of
the closer lies behind every leader; each step keeps both. -/
namespace JavaAtlas.Sorting
open scoped List
variable {ε α β : Type} {refused : ε → Prop}

/-- A merge comes to a result as it should be, or to a failure that may occur, with any patience. -/
def Settles (refused : ε → Prop) (good : α → Prop) (merging : Merging ε α) : Prop :=
  ∀ patience, Yields refused (fun result => good result.1) (merging.run patience)

namespace Settles
variable {good : α → Prop} {better : β → Prop} {first : Merging ε α}

theorem pure {value : α} (holds : good value) :
    Settles refused good (Pure.pure value : Merging ε α) := fun _ => holds

theorem bind {next : α → Merging ε β} (begun : Settles refused good first)
    (ended : ∀ value, good value → Settles refused better (next value)) :
    Settles refused better (first >>= next) := by
  intro patience
  rw [StateT.run_bind]
  exact (begun patience).bind fun result holds => ended result.1 holds result.2

theorem after {change : Merging ε β} {next : β → Merging ε α}
    (free : Settles refused (fun _ => True) change)
    (ended : ∀ value, Settles refused good (next value)) : Settles refused good (change >>= next) :=
  free.bind fun value _ => ended value

theorem lift {result : Except ε α} (holds : Yields refused good result) :
    Settles refused good (liftM result : Merging ε α) :=
  fun _ => holds.bind fun _ holds => holds

theorem get : Settles refused (fun _ => True) (MonadState.get : Merging ε Patience) :=
  fun _ => True.intro

theorem modify (change : Patience → Patience) :
    Settles refused (fun _ => True) (modify change : Merging ε PUnit) := fun _ => True.intro

theorem mono {wider : α → Prop} (begun : Settles refused good first)
    (ended : ∀ value, good value → wider value) : Settles refused wider first :=
  fun patience => (begun patience).mono fun result => ended result.1

end Settles

variable {known : α → Prop} {le : α → α → Prop}

/-- Who leads, and how far a run reaches before an item of the other one, is told by the order. -/
structure Direction.Sound (refused : ε → Prop) (known : α → Prop) (le : α → α → Prop)
    (direction : Direction ε α) : Prop where
  leads : ∀ {leader closer}, known leader → known closer → Yields refused
    (fun wins => if wins then le leader closer else le closer leader)
    (direction.leads leader closer)
  reach : ∀ side {items key}, items ≠ [] → Row known le items → known key →
    Yields refused (Divides le key items) (direction.reach side items key)

theorem Divides.reverse {key : α} {items : List α} {place : Nat}
    (divides : Divides le key items.reverse place) :
    Divides (flip le) key items (items.length - place) := by
  rw [Divides,List.take_reverse,List.drop_reverse] at divides
  simp only [List.mem_reverse] at divides
  exact ⟨divides.2,divides.1⟩

section Directions
variable [IsTrans α le] {before : α → α → Except ε Bool} {items : List α} {key : α}

theorem border_divides (orders : Orders refused before known le) (row : Row known le items)
    (keyKnown : known key) {hint : Nat} (inside : hint < items.length) (side : Side) :
    Yields refused (Divides le key items)
      (border (goesBefore before side key items.toArray) items.length hint) := by
  have found : Yields refused
      (IsBorder items.length (Below le key items) (Above le key items))
      (border (goesBefore before side key items.toArray) items.length hint) := by
    cases side with
    | leader => exact border_found (separates_liesBefore orders row keyKnown) inside
    | closer => exact border_found (separates_liesUpTo orders row keyKnown) inside
  exact found.mono fun _ => IsBorder.divides

theorem Direction.Sound.forward (orders : Orders refused before known le) :
    (Direction.forward before).Sound refused known le where
  leads := orders.told
  reach side _ _ nonempty row keyKnown :=
    border_divides orders row keyKnown (List.length_pos_iff.mpr nonempty) side

theorem Direction.Sound.backward (orders : Orders refused before known le) :
    (Direction.backward before).Sound refused known (flip le) where
  leads leaderKnown closerKnown := orders.told closerKnown leaderKnown
  reach side items key nonempty row keyKnown := by
    have inside : items.length - 1 < items.reverse.length := by
      rw [List.length_reverse]
      exact Nat.sub_one_lt (mt List.length_eq_zero_iff.mp nonempty)
    have found := border_divides orders row.reverse keyKnown inside side.other
    rw [List.length_reverse] at found
    exact found.map fun _ => Divides.reverse

end Directions

theorem Side.eq_or_other (side place : Side) : place = side ∨ place = side.other := by
  cases side <;> cases place <;> simp [other]

theorem Side.other_other (side : Side) : side.other.other = side := by
  cases side <;> rfl

theorem Row.across {items : List α} (row : Row known le items) (count : Nat) :
    ∀ item ∈ items.take count, ∀ other ∈ items.drop count, le item other := by
  have whole := row.ordered
  rw [← List.take_append_drop count items] at whole
  exact (List.pairwise_append.mp whole).2.2

namespace Progress

def remaining (progress : Progress α) : Nat := progress.leader.length + progress.closer.length

structure InOrder (known : α → Prop) (le : α → α → Prop) (progress : Progress α) : Prop where
  taken : Row known le progress.taken.reverse
  left : ∀ side, Row known le (progress.left side)
  ahead : ∀ item ∈ progress.taken, ∀ side, ∀ other ∈ progress.left side, le item other
  closing : ∀ item ∈ progress.leader, ∀ other ∈ progress.closer.getLast?, le item other

/-- The same items in order still, with no more of them left. -/
structure Advances (known : α → Prop) (le : α → α → Prop) (before after : Progress α) : Prop where
  inOrder : after.InOrder known le
  same : after.items.Perm before.items
  shorter : after.remaining ≤ before.remaining

variable {before progress after : Progress α}

theorem InOrder.advances (inOrder : progress.InOrder known le) :
    Advances known le progress progress := ⟨inOrder,.refl _,Nat.le_refl _⟩

theorem Advances.trans (first : Advances known le before progress)
    (second : Advances known le progress after) : Advances known le before after :=
  ⟨second.inOrder,second.same.trans first.same,Nat.le_trans second.shorter first.shorter⟩

theorem taken_take (side : Side) (count : Nat) : (progress.take side count).taken =
    ((progress.left side).take count).reverse ++ progress.taken := rfl

theorem left_take_self (side : Side) (count : Nat) :
    (progress.take side count).left side = (progress.left side).drop count := by
  cases side <;> rfl

theorem left_take_other (side : Side) (count : Nat) :
    (progress.take side count).left side.other = progress.left side.other := by
  cases side <;> rfl

/-- What is left of a side after items were taken stands at the end of what was left before. -/
theorem left_take_suffix (side place : Side) (count : Nat) :
    (progress.take side count).left place <:+ progress.left place := by
  rcases side.eq_or_other place with rfl | rfl
  · rw [left_take_self]
    exact List.drop_suffix count _
  · exact ⟨[],left_take_other side count⟩

theorem perm_items (progress : Progress α) (side : Side) : progress.items.Perm
    (progress.taken.reverse ++ (progress.left side ++ progress.left side.other)) := by
  rw [items,List.append_assoc]
  cases side with
  | leader => rfl
  | closer => exact List.perm_append_comm.append_left _

theorem items_take (side : Side) (count : Nat) :
    (progress.take side count).items.Perm progress.items := by
  refine (perm_items _ side).trans (.trans (.of_eq ?_) (perm_items progress side).symm)
  rw [taken_take,left_take_self,left_take_other,List.reverse_append,List.reverse_reverse,
    List.append_assoc,← List.append_assoc (List.take _ _),List.take_append_drop]

theorem remaining_take (side : Side) (count : Nat) :
    (progress.take side count).remaining ≤ progress.remaining := by
  have leaders := (@left_take_suffix _ progress side .leader count).length_le
  have closers := (@left_take_suffix _ progress side .closer count).length_le
  exact Nat.add_le_add leaders closers

/-- A merge is over as soon as the rest needs no merging. -/
theorem InOrder.items (inOrder : progress.InOrder known le) (ended : progress.isOver = true) :
    Row known le progress.items := by
  obtain ⟨taken,leader,closer⟩ := progress
  have leading : Row known le leader := inOrder.left .leader
  have closedBy : Row known le closer := inOrder.left .closer
  have rest : Row known le (leader ++ closer) := by
    apply leading.append closedBy
    intro item member other there
    match closer, ended, inOrder.closing with
    | [], _, _ => nomatch there
    | [last], _, closing =>
      rw [List.mem_singleton.mp there]
      exact closing item member last rfl
    | _ :: _ :: _, ended, _ =>
      rw [isOver,Bool.or_eq_true,List.isEmpty_iff,decide_eq_true_eq] at ended
      rcases ended with empty | short
      · change leader = [] at empty
        exact absurd (empty ▸ member) List.not_mem_nil
      · simp only [List.length_cons] at short
        omega
  rw [Progress.items,List.append_assoc]
  refine inOrder.taken.append rest fun item member other there => ?_
  rw [List.mem_reverse] at member
  rcases List.mem_append.mp there with leading | closing
  · exact inOrder.ahead item member .leader other leading
  · exact inOrder.ahead item member .closer other closing

/-- Items of one side may be taken that lie before all of the other one. -/
theorem InOrder.take (inOrder : progress.InOrder known le) {side : Side} {count : Nat}
    (small : ∀ item ∈ (progress.left side).take count, ∀ other ∈ progress.left side.other,
      le item other) : (progress.take side count).InOrder known le where
  taken := by
    rw [taken_take,List.reverse_append,List.reverse_reverse]
    refine inOrder.taken.append ((inOrder.left side).take count) fun item member other there => ?_
    exact inOrder.ahead item (List.mem_reverse.mp member) side other (List.mem_of_mem_take there)
  left place := (inOrder.left place).sublist (left_take_suffix side place count).sublist
  ahead := by
    intro item member place other there
    rw [taken_take,List.mem_append,List.mem_reverse] at member
    rcases member with late | early
    · rcases side.eq_or_other place with rfl | rfl
      · rw [left_take_self] at there
        exact (inOrder.left place).across count item late other there
      · rw [left_take_other] at there
        exact small item late other there
    · exact inOrder.ahead item early place other ((left_take_suffix side place count).mem there)
  closing := by
    intro item member other last
    obtain ⟨front,whole⟩ := @left_take_suffix _ progress side .closer count
    apply inOrder.closing item ((left_take_suffix side .leader count).mem member) other
    change other ∈ (progress.left .closer).getLast?
    rw [← whole]
    exact List.mem_getLast?_append_of_mem_getLast? last

theorem advances_take (inOrder : progress.InOrder known le) (side : Side) (count : Nat)
    (small : ∀ item ∈ (progress.left side).take count, ∀ other ∈ progress.left side.other,
      le item other) :
    Advances known le progress (progress.take side count) :=
  ⟨inOrder.take small,items_take side count,remaining_take side count⟩

end Progress

section Taking
open Progress
variable [IsTrans α le] {direction : Direction ε α} {progress : Progress α}

theorem exists_of_not_over (going : progress.isOver = false) :
    ∃ taken leader leaders closer next closers,
      progress = ⟨taken,leader :: leaders,closer :: next :: closers⟩ := by
  obtain ⟨taken,leader,closer⟩ := progress
  match leader, closer, going with
  | leader :: leaders, closer :: next :: closers, _ => exact ⟨_,_,_,_,_,_,rfl⟩

theorem exists_left_of_not_over (going : progress.isOver = false) (side : Side) :
    ∃ item items, progress.left side = item :: items := by
  obtain ⟨_,_,_,_,_,_,rfl⟩ := exists_of_not_over going
  cases side <;> exact ⟨_,_,rfl⟩

theorem takeSingly_advances (sound : direction.Sound refused known le)
    (patience leaderWins closerWins : Nat) (inOrder : progress.InOrder known le) :
    Yields refused (fun after => Advances known le progress after ∧
        (after.isOver = true ∨ after.remaining < progress.remaining))
      (takeSingly direction patience leaderWins closerWins progress) := by
  induction leaderWins, closerWins, progress using takeSingly.induct with
  | case1 leaderWins closerWins taken leader leaders closer next closers ledOn closedOn =>
    rw [takeSingly]
    -- Whichever item is taken, the rest of the run goes on from a progress with fewer items left.
    have goesOn {progress after : Progress α} {stops : Prop} [Decidable stops]
        {rest : Except ε (Progress α)} (step : Advances known le progress after)
        (smaller : after.remaining < progress.remaining)
        (further : Yields refused (fun last => Advances known le after last ∧
          (last.isOver = true ∨ last.remaining < after.remaining)) rest) :
        Yields refused (fun last => Advances known le progress last ∧
          (last.isOver = true ∨ last.remaining < progress.remaining))
          (if stops then return after else rest) := by
      split
      · exact ⟨step,.inr smaller⟩
      · refine further.mono fun last ⟨advanced,_⟩ => ⟨step.trans advanced,.inr ?_⟩
        exact Nat.lt_of_le_of_lt advanced.shorter smaller
    have leading : Row known le (leader :: leaders) := inOrder.left .leader
    have closing : Row known le (closer :: next :: closers) := inOrder.left .closer
    apply (sound.leads (leading.within leader List.mem_cons_self)
      (closing.within closer List.mem_cons_self)).bind
    rintro (_ | _) less
    · have step := advances_take inOrder .closer 1
        (fun item member => leading.least (List.mem_singleton.mp member ▸ less))
      exact goesOn step (by simp [remaining]) (closedOn step.inOrder)
    · have step := advances_take inOrder .leader 1
        (fun item member => closing.least (List.mem_singleton.mp member ▸ less))
      exact goesOn step (by simp [remaining]) (ledOn step.inOrder)
  | case2 leaderWins closerWins other ended =>
    rw [takeSingly]
    · refine ⟨inOrder.advances,.inl (eq_true_of_ne_false fun going => ?_)⟩
      obtain ⟨_,_,_,_,_,_,rfl⟩ := exists_of_not_over going
      exact ended _ _ _ _ _ _ rfl
    · exact ended

theorem takeLeap_advances (sound : direction.Sound refused known le) (side : Side)
    (inOrder : progress.InOrder known le) :
    Yields refused (fun result => Advances known le progress result.2)
      (takeLeap direction side progress) := by
  rw [takeLeap]
  cases ended : progress.isOver with
  | true => exact inOrder.advances
  | false =>
    obtain ⟨item,items,here⟩ := exists_left_of_not_over ended side
    obtain ⟨key,keys,there⟩ := exists_left_of_not_over ended side.other
    have row := inOrder.left side.other
    rw [there] at row ⊢
    have nonempty : progress.left side ≠ [] := here ▸ List.cons_ne_nil item items
    apply (sound.reach side nonempty (inOrder.left side) (row.within key List.mem_cons_self)).bind
    rintro reach ⟨near,far⟩
    have step := advances_take inOrder side reach fun item member =>
      there ▸ row.least (near item member)
    have further := advances_take step.inOrder side.other 1 (by
      intro item member
      rw [left_take_other,there,List.take_one,List.head?_cons,Option.toList_some,
        List.mem_singleton] at member
      rw [side.other_other,left_take_self,member]
      exact far)
    change Advances known le _ (if _ then _ else _)
    split
    · exact step
    · exact step.trans further

theorem leapBoth_advances (sound : direction.Sound refused known le)
    (inOrder : progress.InOrder known le) :
    Yields refused (fun result => Advances known le progress result.2)
      (leapBoth direction progress) := by
  apply (takeLeap_advances sound direction.first inOrder).bind
  intro first step
  apply (takeLeap_advances sound direction.first.other step.inOrder).bind
  exact fun second further => step.trans further

theorem takeInLeaps_advances (sound : direction.Sound refused known le) (fuel : Nat)
    (inOrder : progress.InOrder known le) :
    Settles refused (Advances known le progress) (takeInLeaps direction fuel progress) := by
  induction fuel generalizing progress with
  | zero => exact .pure inOrder.advances
  | succ fuel ih =>
    refine (Settles.modify _).after fun _ => ?_
    apply (Settles.lift (leapBoth_advances sound inOrder)).bind
    rintro ⟨reach,next⟩ step
    dsimp only
    split
    · exact .pure step
    · split
      · exact (ih step.inOrder).mono fun last => step.trans
      · exact (Settles.modify _).after fun _ => .pure step

/-- With as much fuel as items are left the merge comes to its end. -/
theorem takeAll_ends (sound : direction.Sound refused known le) {fuel : Nat}
    (enough : progress.remaining ≤ fuel) (inOrder : progress.InOrder known le) :
    Settles refused (fun after => Advances known le progress after ∧ after.isOver = true)
      (takeAll direction fuel progress) := by
  induction fuel generalizing progress with
  | zero =>
    refine .pure ⟨inOrder.advances,?_⟩
    rw [remaining] at enough
    have empty : progress.leader = [] := List.length_eq_zero_iff.mp (by omega)
    rw [isOver,empty,List.isEmpty_nil,Bool.true_or]
  | succ fuel ih =>
    refine Settles.get.after fun patience => ?_
    apply (Settles.lift (takeSingly_advances sound patience 0 0 inOrder)).bind
    rintro next ⟨step,smaller⟩
    split
    · next ended => exact .pure ⟨step,ended⟩
    · next going =>
      have fewer := smaller.resolve_left going
      refine (Settles.modify _).after fun _ => ?_
      apply (takeInLeaps_advances sound fuel step.inOrder).bind
      intro leapt further
      have advanced := step.trans further
      split
      · next ended => exact .pure ⟨advanced,ended⟩
      · have left := further.shorter
        refine (ih (by omega) further.inOrder).mono fun last ⟨onward,ended⟩ => ?_
        exact ⟨advanced.trans onward,ended⟩

theorem mergeFrom_row (sound : direction.Sound refused known le) {leader closer : List α}
    (leading : Row known le leader) (closedBy : Row known le closer)
    (first : ∀ item ∈ leader.head?, ∀ other ∈ closer, le item other)
    (last : ∀ item ∈ leader, ∀ other ∈ closer.getLast?, le item other) :
    Settles refused (fun items => items.Perm (leader ++ closer) ∧ Row known le items)
      (mergeFrom direction {leader,closer}) := by
  have start : InOrder known le (⟨[],leader,closer⟩ : Progress α) :=
    ⟨⟨nofun,.nil⟩,fun | .leader => leading | .closer => closedBy,nofun,last⟩
  have step := advances_take start .leader 1 (by
    intro item member
    change item ∈ leader.take 1 at member
    rw [List.take_one,Option.mem_toList] at member
    exact first item member)
  rw [mergeFrom]
  refine (takeAll_ends sound ?_ step.inOrder).bind fun after ⟨advanced,ended⟩ => .pure ?_
  · simp only [Progress.items,remaining,List.length_append]
    omega
  · exact ⟨(step.trans advanced).same,advanced.inOrder.items ended⟩

end Taking

section Merging
variable [IsTrans α le] {before : α → α → Except ε Bool} {first second : List α}

theorem mergeInner_row (orders : Orders refused before known le) (firstRow : Row known le first)
    (secondRow : Row known le second)
    (heads : ∀ item ∈ second.head?, ∀ other ∈ first, le item other)
    (lasts : ∀ item ∈ second, ∀ other ∈ first.getLast?, le item other) :
    Settles refused (fun items => items.Perm (first ++ second) ∧ Row known le items)
      (mergeInner before first second) := by
  rw [mergeInner]
  split
  · refine (mergeFrom_row (.forward orders) secondRow firstRow heads lasts).mono ?_
    exact fun items ⟨same,row⟩ => ⟨same.trans List.perm_append_comm,row⟩
  · have merged := mergeFrom_row (.backward orders) firstRow.reverse secondRow.reverse
      (by
        intro item member other there
        rw [List.head?_reverse] at member
        exact lasts other (List.mem_reverse.mp there) item member)
      (by
        intro item member other there
        rw [List.getLast?_reverse] at there
        exact heads other there item (List.mem_reverse.mp member))
    refine merged.bind fun items ⟨same,row⟩ => .pure ⟨?_,row.reverse⟩
    exact items.reverse_perm.trans
      (same.trans (first.reverse_perm.append second.reverse_perm))

omit [IsTrans α le] in
/-- What is in place already may stay there while the items between are merged. -/
theorem Row.around {inner : List α} (start stop : Nat) (firstRow : Row known le first)
    (secondRow : Row known le second) (row : Row known le inner)
    (same : inner.Perm (first.drop start ++ second.take stop))
    (ahead : ∀ item ∈ first.take start, ∀ other ∈ second, le item other)
    (behind : ∀ item ∈ first, ∀ other ∈ second.drop stop, le item other) :
    (first.take start ++ inner ++ second.drop stop).Perm (first ++ second) ∧
      Row known le (first.take start ++ inner ++ second.drop stop) := by
  constructor
  · calc first.take start ++ inner ++ second.drop stop
      _ ~ first.take start ++ (first.drop start ++ second.take stop) ++ second.drop stop :=
        (same.append_left _).append_right _
      _ = first.take start ++ first.drop start ++ (second.take stop ++ second.drop stop) := by
        simp only [List.append_assoc]
      _ = first ++ second := by rw [List.take_append_drop,List.take_append_drop]
  · refine ((firstRow.take start).append row ?_).append (secondRow.drop stop) ?_
    · intro item member other there
      rcases List.mem_append.mp (same.mem_iff.mp there) with early | late
      · exact firstRow.across start item member other early
      · exact ahead item member other (List.mem_of_mem_take late)
    · intro item member other there
      rcases List.mem_append.mp member with early | inside
      · exact behind item (List.mem_of_mem_take early) other there
      · rcases List.mem_append.mp (same.mem_iff.mp inside) with early | late
        · exact behind item (List.mem_of_mem_drop early) other there
        · exact secondRow.across stop item late other there

/-- Merging two runs gives a run of the items of both. -/
theorem merge_row (orders : Orders refused before known le) (firstRow : Row known le first)
    (secondRow : Row known le second) :
    Settles refused (fun items => items.Perm (first ++ second) ∧ Row known le items)
      (merge before first second) := by
  rw [merge]
  cases second with
  | nil => exact .pure ⟨.refl _,by rwa [List.append_nil]⟩
  | cons head rest =>
    rcases first.eq_nil_or_concat with rfl | ⟨others,last,rfl⟩
    · exact .pure ⟨.refl _,secondRow⟩
    · rw [List.concat_eq_append] at firstRow ⊢
      have headKnown := secondRow.within head List.mem_cons_self
      have lastKnown := firstRow.within last (List.mem_append_right others List.mem_cons_self)
      rw [List.head?_cons,List.getLast?_concat]
      apply (Settles.lift (border_divides orders firstRow headKnown (by simp) .closer)).bind
      intro start ⟨small,large⟩
      have ahead := fun item member => secondRow.least (small item member)
      split
      · next whole =>
        rw [beq_iff_eq] at whole
        rw [whole,List.take_length] at ahead
        exact .pure ⟨.refl _,firstRow.append secondRow ahead⟩
      · apply (Settles.lift (border_divides orders secondRow lastKnown (by simp) .leader)).bind
        intro stop ⟨near,far⟩
        have behind := fun item member other there =>
          firstRow.greatest (far other there) item member
        have merged := mergeInner_row orders (firstRow.drop start) (secondRow.take stop)
          (by
            intro item member
            rw [List.head?_take] at member
            split at member
            · nomatch member
            · exact Option.some.inj member ▸ large)
          (by
            intro item member other there
            rw [List.getLast?_drop,List.getLast?_concat] at there
            split at there
            · nomatch there
            · exact Option.some.inj there ▸ near item member)
        exact merged.bind fun inner ⟨same,row⟩ =>
          .pure (firstRow.around start stop secondRow row same ahead behind)

end Merging

end JavaAtlas.Sorting
