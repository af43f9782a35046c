import JavaAtlas.Proofs.RunMerging
import JavaAtlas.Sorting.Adaptive

/-! Sorting gives the same items in order. Every run that waits is in order, and the runs that wait
hold, together, what was read; which of them are merged and when makes no difference to that. A
sort fails only where a comparison of two of its items does. -/
namespace JavaAtlas.Sorting
open scoped List
variable {ε α : Type} {refused : ε → Prop} {known : α → Prop} {le : α → α → Prop}
  [IsTrans α le] {before : α → α → Except ε Bool}

section Runs

/-- A run continues as long as each item stands to its neighbour as the run demands. -/
theorem continueRun_row (falling : Bool) (stands : α → α → Prop) [IsTrans α stands]
    (told : ∀ {item last}, known item → known last → Yields refused
      (fun earlier => (earlier == falling) = true → stands item last) (before item last))
    {last : α} {done items : List α} (row : Row known stands (last :: done))
    (within : ∀ item ∈ items, known item) :
    Yields refused (fun (run,rest) =>
        Row known stands run ∧ run ≠ [] ∧ run.reverse ++ rest = done.reverse ++ last :: items)
      (continueRun before falling last done items) := by
  induction items generalizing last done with
  | nil => exact ⟨row,List.cons_ne_nil _ _,by simp⟩
  | cons item rest ih =>
    rw [List.forall_mem_cons] at within
    rw [continueRun]
    apply (told within.1 (row.within last List.mem_cons_self)).bind
    intro earlier follows
    split
    · next same =>
      have longer := row.cons within.1 (row.least (follows same))
      refine (ih longer within.2).mono fun (run,rest) ⟨ordered,nonempty,whole⟩ => ?_
      exact ⟨ordered,nonempty,by simpa using whole⟩
    · exact ⟨row,List.cons_ne_nil _ _,by simp⟩

theorem firstRun_row (orders : Orders refused before known le) {items : List α}
    (within : ∀ item ∈ items, known item) :
    Yields refused (fun (run,rest) =>
        Row known le run ∧ (items ≠ [] → run ≠ []) ∧ (run ++ rest).Perm items)
      (firstRun before items) := by
  match items, within with
  | [], _ => exact ⟨⟨nofun,.nil⟩,fun nonempty => nonempty,.refl _⟩
  | [only], within =>
    exact ⟨⟨within,List.pairwise_singleton le only⟩,fun nonempty => nonempty,.refl _⟩
  | first :: second :: rest, within =>
    rw [List.forall_mem_cons,List.forall_mem_cons] at within
    obtain ⟨firstKnown,secondKnown,within⟩ := within
    have single (stands : α → α → Prop) : Row known stands [first] :=
      ⟨List.forall_mem_singleton.mpr firstKnown,List.pairwise_singleton stands first⟩
    apply (orders.told secondKnown firstKnown).bind
    rintro (_ | _) less
    · have longer := (single (flip le)).cons secondKnown ((single (flip le)).least less)
      have rising := continueRun_row false (flip le)
        (fun itemKnown lastKnown => (orders.told itemKnown lastKnown).mono fun
          | false, less, _ => less) longer within
      refine rising.bind fun (run,rest) ⟨row,nonempty,whole⟩ => ⟨row.reverse,?_,?_⟩
      · exact fun _ => mt List.reverse_eq_nil_iff.mp nonempty
      · rw [whole]
        rfl
    · have longer := (single le).cons secondKnown ((single le).least less)
      have falling := continueRun_row true le
        (fun itemKnown lastKnown => (orders.told itemKnown lastKnown).mono fun
          | true, less, _ => less) longer within
      refine falling.mono fun (run,rest) ⟨row,nonempty,whole⟩ => ⟨row,fun _ => nonempty,?_⟩
      calc run ++ rest
        _ ~ run.reverse ++ rest := run.reverse_perm.symm.append_right rest
        _ = first :: second :: _ := whole

theorem insertInto_row (orders : Orders refused before known le) {run : List α} {item : α}
    (row : Row known le run) (itemKnown : known item) :
    Yields refused (fun longer => longer.Perm (run ++ [item]) ∧ Row known le longer)
      (insertInto before run item) := by
  have found := bisect_border (separates_liesUpTo orders row itemKnown) (Nat.zero_le _)
    (Nat.le_refl _) nofun (fun index large short => absurd short (Nat.not_lt.mpr large))
  refine found.bind fun place border => ?_
  obtain ⟨small,large⟩ := border.divides
  have single : Row known le [item] :=
    ⟨List.forall_mem_singleton.mpr itemKnown,List.pairwise_singleton le item⟩
  have inner := (row.drop place).cons itemKnown large
  have moved : (item :: run.drop place).Perm (run.drop place ++ [item]) :=
    (List.perm_append_singleton item _).symm
  have whole := row.around place 1 single inner moved
    (fun other member key there => List.mem_singleton.mp there ▸ small other member) nofun
  rw [List.drop_one,List.tail_cons,List.append_nil] at whole
  exact whole

theorem insertAll_row (orders : Orders refused before known le) {run items : List α}
    (row : Row known le run) (within : ∀ item ∈ items, known item) :
    Yields refused (fun longer => longer.Perm (run ++ items) ∧ Row known le longer)
      (items.foldlM (insertInto before) run) := by
  induction items generalizing run with
  | nil => exact ⟨by rw [List.append_nil],row⟩
  | cons item rest ih =>
    rw [List.forall_mem_cons] at within
    rw [List.foldlM_cons]
    refine (insertInto_row orders row within.1).bind fun next ⟨same,longer⟩ => ?_
    refine (ih longer within.2).mono fun last ⟨further,ordered⟩ => ⟨further.trans ?_,ordered⟩
    simpa using same.append_right rest

/-- A run of at least one item is in order, and with the rest it makes up the items. -/
theorem runOf_row (orders : Orders refused before known le) (length : Nat) {items : List α}
    (within : ∀ item ∈ items, known item) :
    Yields refused (fun (run,rest) =>
        Row known le run ∧ (items ≠ [] → run ≠ []) ∧ (run ++ rest).Perm items)
      (runOf before length items) := by
  refine (firstRun_row orders within).bind fun (run,rest) ⟨row,nonempty,same⟩ => ?_
  have restKnown : ∀ item ∈ rest, known item := fun item member =>
    within item (same.mem_iff.mp (List.mem_append_right run member))
  refine (insertAll_row orders row fun item member =>
    restKnown item (List.mem_of_mem_take member)).bind fun longer ⟨filled,ordered⟩ => ?_
  refine ⟨ordered,fun filledItems => ?_,?_⟩
  · rintro rfl
    exact nonempty filledItems (List.append_eq_nil_iff.mp filled.nil_eq.symm).1
  · have whole := filled.append_right (rest.drop (length - run.length))
    rw [List.append_assoc,List.take_append_drop] at whole
    exact whole.trans same

end Runs

section Waiting
variable {items : List α} {waiting : List (Pending α)}

/-- Runs that wait: each is in order, and together they hold what was read. -/
structure Holds (known : α → Prop) (le : α → α → Prop) (items : List α)
    (waiting : List (Pending α)) : Prop where
  rows : ∀ pending ∈ waiting, Row known le pending.items
  all : (waiting.flatMap Pending.items).Perm items

omit [IsTrans α le] in
theorem Holds.perm (holds : Holds known le items waiting) {others : List (Pending α)}
    (same : others.Perm waiting) : Holds known le items others :=
  ⟨fun pending member => holds.rows pending (same.mem_iff.mp member),
    (same.flatMap_right _).trans holds.all⟩

omit [IsTrans α le] in
theorem Holds.withPower {last : Pending α} (holds : Holds known le items (last :: waiting))
    (power : Nat) : Holds known le items ({last with power} :: waiting) :=
  ⟨List.forall_mem_cons.mpr (List.forall_mem_cons.mp holds.rows),holds.all⟩

theorem join_holds (orders : Orders refused before known le) {first second : Pending α}
    (holds : Holds known le items (first :: second :: waiting)) :
    Settles refused (fun joined => Holds known le items (joined :: waiting))
      (join before first second) := by
  obtain ⟨rows,all⟩ := holds
  rw [List.forall_mem_cons,List.forall_mem_cons] at rows
  refine (merge_row orders rows.1 rows.2.1).bind fun merged ⟨same,row⟩ => .pure ⟨?_,?_⟩
  · exact List.forall_mem_cons.mpr ⟨row,rows.2.2⟩
  · rw [List.flatMap_cons,List.flatMap_cons,← List.append_assoc] at all
    exact (same.append_right _).trans all

theorem settle_holds (orders : Orders refused before known le) (power : Nat) {last : Pending α}
    (holds : Holds known le items (last :: waiting)) :
    Settles refused (Holds known le items) (settle before power last waiting) := by
  induction waiting generalizing last with
  | nil => exact .pure (holds.withPower power)
  | cons previous others ih =>
    rw [settle]
    split
    · exact (join_holds orders (holds.perm (.swap _ _ _))).bind fun joined fewer => ih fewer
    · exact .pure (holds.withPower power)

theorem enqueue_holds (orders : Orders refused before known le) (total : Nat) {run : List α}
    (holds : Holds known le items waiting) (row : Row known le run) :
    Settles refused (Holds known le (run ++ items)) (enqueue before total waiting run) := by
  unfold enqueue
  cases waiting with
  | nil =>
    obtain rfl := holds.all.nil_eq
    exact .pure ⟨List.forall_mem_singleton.mpr row,by simp⟩
  | cons last others =>
    apply (settle_holds orders _ holds).bind
    refine fun settled ⟨rows,all⟩ => .pure ⟨?_,?_⟩
    · exact List.forall_mem_cons.mpr ⟨row,rows⟩
    · exact all.append_left run

theorem collapse_row (orders : Orders refused before known le)
    (holds : Holds known le items waiting) :
    Settles refused (fun merged => merged.Perm items ∧ Row known le merged)
      (collapse before waiting) := by
  induction waiting using collapse.induct with
  | case1 =>
    rw [collapse]
    exact .pure ⟨holds.all,⟨nofun,.nil⟩⟩
  | case2 only =>
    rw [collapse]
    exact .pure ⟨by simpa using holds.all,holds.rows only List.mem_cons_self⟩
  | case3 last previous =>
    rw [collapse]
    apply (join_holds orders (holds.perm (.swap _ _ _))).bind
    rintro joined ⟨rows,all⟩
    exact .pure ⟨by simpa using all,rows joined List.mem_cons_self⟩
  | case4 last previous first others shorter further =>
    rw [collapse,if_pos shorter]
    have turned :
        (first :: previous :: last :: others).Perm (last :: previous :: first :: others) :=
      (List.reverse_perm [last,previous,first]).append_right others
    apply (join_holds orders (holds.perm turned)).bind
    exact fun joined fewer => further joined (fewer.perm (.swap _ _ _))
  | case5 last previous first others shorter further =>
    rw [collapse,if_neg shorter]
    exact (join_holds orders (holds.perm (.swap _ _ _))).bind further

end Waiting

theorem sortRuns_row (orders : Orders refused before known le) (total : Nat) {fuel : Nat}
    {done items : List α} {waiting : List (Pending α)} (holds : Holds known le done waiting)
    (enough : items.length ≤ fuel) (within : ∀ item ∈ items, known item) :
    Settles refused (fun sorted => sorted.Perm (items ++ done) ∧ Row known le sorted)
      (sortRuns before total fuel waiting items) := by
  induction fuel generalizing done items waiting with
  | zero =>
    rw [List.length_eq_zero_iff.mp (Nat.le_zero.mp enough)]
    exact collapse_row orders holds
  | succ fuel ih =>
    rw [sortRuns]
    split
    · next empty =>
      rw [List.isEmpty_iff.mp empty]
      exact collapse_row orders holds
    · next going =>
      apply (Settles.lift (runOf_row orders _ within)).bind
      intro (run,rest) ⟨row,nonempty,same⟩
      have filled := List.length_pos_iff.mpr (nonempty (mt List.isEmpty_iff.mpr going))
      have fewer : rest.length ≤ fuel := by
        have size := same.length_eq
        rw [List.length_append] at size
        omega
      apply (enqueue_holds orders total holds row).bind
      intro next held
      refine (ih held fewer fun item member =>
        within item (same.mem_iff.mp (List.mem_append_right run member))).mono ?_
      refine fun sorted ⟨kept,ordered⟩ => ⟨?_,ordered⟩
      calc sorted
        _ ~ rest ++ (run ++ done) := kept
        _ = rest ++ run ++ done := (List.append_assoc _ _ _).symm
        _ ~ items ++ done := (List.perm_append_comm.trans same).append_right done

/-- What is sorted has the items that were given, in order; only a comparison of two of them can
make it fail. -/
theorem sorted_row (orders : Orders refused before known le) {items : List α}
    (within : ∀ item ∈ items, known item) :
    Yields refused (fun sorted => sorted.Perm items ∧ Row known le sorted)
      (sorted before items) := by
  have holds : Holds known le [] ([] : List (Pending α)) := ⟨nofun,.nil⟩
  have settled := sortRuns_row orders items.length holds (Nat.le_refl _) within
  rw [List.append_nil] at settled
  exact (settled worthwhile).map fun result kept => kept

end JavaAtlas.Sorting
