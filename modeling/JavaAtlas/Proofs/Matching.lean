import JavaAtlas.Pattern.Basic
import Mathlib.Data.List.Basic
import Mathlib.Logic.Relation

/-! How patterns move over a text. A pattern that takes a cursor to another one does so before it
tries any other way, and what goes on from there decides nothing as long as it succeeds; this gives
matches piece by piece. That there is no match follows from the kind of the characters that a
pattern can read on its way to one that does not come. -/
namespace JavaAtlas

namespace Cursor

/-- The cursor behind a text that stands at it. -/
def past (cursor : Cursor) (text : List Char) : Cursor :=
  {cursor with
    position := cursor.position + text.length
    before := text.getLast?.or cursor.before
    rest := cursor.rest.drop text.length}

/-- The cursor with one more capture, which ends at it. -/
def hold (cursor : Cursor) (index start : Nat) (text : List Char) : Cursor :=
  {cursor with captures := (index,⟨start,cursor.position,text⟩) :: cursor.captures}

variable {cursor : Cursor}

theorem past_nil (cursor : Cursor) : cursor.past [] = cursor := by simp [past]

theorem past_past (cursor : Cursor) (first second : List Char) :
    (cursor.past first).past second = cursor.past (first ++ second) := by
  simp [past,Nat.add_assoc,Option.or_assoc]

theorem rest_past (text : List Char) {more : List Char} (starts : cursor.rest = text ++ more) :
    (cursor.past text).rest = more := by
  simp [past,starts]

/-- A text leads from the one cursor to the other. -/
def Spells (cursor : Cursor) (text : List Char) (next : Cursor) : Prop :=
  cursor.rest = text ++ next.rest ∧ next = cursor.past text

theorem spells_nil (cursor : Cursor) : cursor.Spells [] cursor := ⟨rfl,(past_nil cursor).symm⟩

theorem Spells.append {first second : List Char} {middle next : Cursor}
    (one : cursor.Spells first middle) (two : middle.Spells second next) :
    cursor.Spells (first ++ second) next := by
  obtain ⟨starts,rfl⟩ := one
  obtain ⟨goes,rfl⟩ := two
  exact ⟨by rw [starts,goes,List.append_assoc],past_past cursor first second⟩

/-- Where a capture was made on the way, which changes nothing about the places behind it. -/
theorem captured_of_spells {border : Option Char} {position index : Nat}
    {rest lead part back : List Char} {middle further stop : Cursor}
    (one : Spells ⟨position,border,rest,[]⟩ lead middle) (two : middle.Spells part further)
    (three : (further.hold index middle.position
      (middle.rest.take (further.position - middle.position))).Spells back stop) :
    rest = lead ++ (part ++ (back ++ stop.rest)) ∧
      stop.position = position + (lead ++ (part ++ back)).length ∧
      stop.captures =
        [(index,⟨position + lead.length,position + lead.length + part.length,part⟩)] := by
  obtain ⟨starts,rfl⟩ := one
  obtain ⟨goes,rfl⟩ := two
  obtain ⟨ends,rfl⟩ := three
  have held : ((past ⟨position,border,rest,[]⟩ lead).past part).rest = back ++ _ := ends
  have taken : (past ⟨position,border,rest,[]⟩ lead).rest.take part.length = part := by
    rw [goes,List.take_left]
  refine ⟨starts.trans (congrArg (lead ++ ·) (goes.trans (congrArg (part ++ ·) held))),?_,?_⟩
  · simp [past,hold,Nat.add_assoc]
  · simpa [past,hold] using taken

end Cursor

namespace Pattern
open Relation (ReflTransGen)

section Runs
variable {α : Type} (cursor : Cursor) (go : Cursor → Option α)

theorem run_one (accepts : Char → Bool) :
    (one accepts).run cursor go = (cursor.advance? accepts).bind go := rfl

theorem run_either (first second : Pattern) : (either first second).run cursor go =
    match first.run cursor go with
    | some result => some result
    | none => second.run cursor go := rfl

theorem run_border : border.run cursor go = if cursor.atBorder then go cursor else none := rfl

theorem run_notAhead (body : Pattern) : (notAhead body).run cursor go =
    if (body.run cursor fun _ => some ()).isSome then none else go cursor := rfl

theorem run_longest (body : Pattern) : (longest body).run cursor go =
    (places (fun place => body.run place some) cursor.rest cursor []).findSome? go := rfl

theorem run_shortest (body : Pattern) : (shortest body).run cursor go =
    nearest (fun place => body.run place some) go cursor.rest cursor := rfl

theorem rounds_succ (step : Cursor → (Cursor → Option α) → Option α) (limit : Nat) :
    rounds step go (limit + 1) cursor =
      match step cursor (rounds step go limit) with
      | some result => some result
      | none => go cursor := rfl

theorem places_cons (step : Cursor → Option Cursor) (c : Char) (left : List Char)
    (done : List Cursor) : places step (c :: left) cursor done =
      match step cursor with
      | none => cursor :: done
      | some next => places step left next (cursor :: done) := rfl

end Runs

section Moves
variable {first second body : Pattern} {cursor middle next : Cursor}

/-- By preference the pattern moves from a cursor to another: if going on from there succeeds, no
other way is tried. -/
def Takes (pattern : Pattern) (cursor next : Cursor) : Prop :=
  ∀ ⦃α : Type⦄ ⦃go : Cursor → Option α⦄ ⦃result : α⦄, go next = some result →
    pattern.run cursor go = some result

/-- The pattern matches in no way at the cursor. -/
def Fails (pattern : Pattern) (cursor : Cursor) : Prop :=
  ∀ ⦃α : Type⦄ (go : Cursor → Option α), pattern.run cursor go = none

theorem Takes.seq (one : first.Takes cursor middle) (two : second.Takes middle next) :
    (Pattern.seq first second).Takes cursor next := by
  intro α go result goes
  exact one (two goes)

theorem Fails.seq (fails : first.Fails cursor) (second : Pattern) :
    (Pattern.seq first second).Fails cursor := fun _ _ => fails _

theorem Takes.left (takes : first.Takes cursor next) (second : Pattern) :
    (either first second).Takes cursor next := by
  intro α go result goes
  rw [run_either,takes goes]

theorem Takes.right (fails : first.Fails cursor) (takes : second.Takes cursor next) :
    (either first second).Takes cursor next := by
  intro α go result goes
  rw [run_either,fails,takes goes]

theorem Fails.either (one : first.Fails cursor) (two : second.Fails cursor) :
    (Pattern.either first second).Fails cursor := by
  intro α go
  rw [run_either,one,two]

theorem either_some {α : Type} {go : Cursor → Option α} {result : α}
    (ran : (Pattern.either first second).run cursor go = some result) :
    first.run cursor go = some result ∨ second.run cursor go = some result := by
  rw [run_either] at ran
  split at ran
  · next found => exact .inl (ran ▸ found)
  · exact .inr ran

theorem takes_nothing (cursor : Cursor) : nothing.Takes cursor cursor := fun _ _ _ goes => goes

theorem takes_optional (fails : body.Fails cursor) : (optional body).Takes cursor cursor :=
  Takes.right fails (takes_nothing cursor)

theorem takes_border (here : cursor.atBorder = true) : border.Takes cursor cursor := by
  intro α go result goes
  rw [run_border,if_pos here,goes]

theorem takes_one {accepts : Char → Bool} {c : Char} {rest : List Char}
    (starts : cursor.rest = c :: rest) (accepted : accepts c = true) :
    (one accepts).Takes cursor (cursor.past [c]) := by
  intro α go result goes
  rw [run_one,Cursor.advance?,starts]
  simp only [accepted,if_true,Option.bind_some]
  simpa [Cursor.past,starts] using goes

theorem one_some {α : Type} {accepts : Char → Bool} {go : Cursor → Option α} {result : α}
    (ran : (one accepts).run cursor go = some result) :
    ∃ c rest, cursor.rest = c :: rest ∧ accepts c = true ∧ go (cursor.past [c]) = some result := by
  obtain ⟨next,moved,goes⟩ := Option.bind_eq_some_iff.mp ran
  unfold Cursor.advance? at moved
  split at moved
  · cases moved
  · next c rest starts =>
    split at moved
    · next accepted =>
      cases moved
      exact ⟨c,rest,starts,accepted,by simpa [Cursor.past,starts] using goes⟩
    · cases moved

theorem fails_one {accepts : Char → Bool}
    (refused : ∀ c, cursor.rest.head? = some c → accepts c = false) : (one accepts).Fails cursor := by
  intro α go
  rw [run_one,Cursor.advance?]
  split
  · rfl
  · next c rest starts => rw [if_neg (by simp [refused c (by rw [starts]; rfl)])]; rfl

theorem run_sequence {α : Type} (first : Pattern) (others : List Pattern) (cursor : Cursor)
    (go : Cursor → Option α) :
    (sequence (first :: others)).run cursor go =
      first.run cursor fun middle => (sequence others).run middle go := by
  cases others <;> rfl

theorem run_literal {α : Type} {text more : List Char} (starts : cursor.rest = text ++ more)
    (go : Cursor → Option α) : (literal text).run cursor go = go (cursor.past text) := by
  induction text generalizing cursor with
  | nil => rw [Cursor.past_nil]; rfl
  | cons c text ih =>
    have step : (char c).run cursor (fun middle => (literal text).run middle go) =
        (literal text).run (cursor.past [c]) go := by
      rw [char,run_one,Cursor.advance?,starts]
      simp [Cursor.past,starts]
    rw [literal,List.map_cons,run_sequence]
    exact step.trans ((ih (Cursor.rest_past [c] starts)).trans (by rw [Cursor.past_past]; rfl))

theorem takes_literal {text more : List Char} (starts : cursor.rest = text ++ more) :
    (literal text).Takes cursor (cursor.past text) := by
  intro α go result goes
  rw [run_literal starts,goes]

theorem fails_literal {text : List Char} (apart : ¬ text <+: cursor.rest) :
    (literal text).Fails cursor := by
  induction text generalizing cursor with
  | nil => exact absurd List.nil_prefix apart
  | cons c text ih =>
    intro α go
    rw [literal,List.map_cons,run_sequence]
    by_cases starts : ∃ rest, cursor.rest = c :: rest
    · obtain ⟨rest,starts⟩ := starts
      rw [char,run_one,Cursor.advance?,starts]
      simp only [beq_self_eq_true,if_true,Option.bind_some]
      apply ih
      intro begins
      apply apart
      rw [starts]
      exact List.cons_prefix_cons.mpr ⟨rfl,begins⟩
    · apply fails_one
      intro d head
      obtain ⟨rest,starts'⟩ := List.head?_eq_some_iff.mp head
      rw [beq_eq_false_iff_ne]
      rintro rfl
      exact starts ⟨rest,starts'⟩

theorem literal_some {α : Type} {text : List Char} {go : Cursor → Option α} {result : α}
    (ran : (literal text).run cursor go = some result) :
    ∃ more, cursor.rest = text ++ more ∧ go (cursor.past text) = some result := by
  by_cases starts : text <+: cursor.rest
  · obtain ⟨more,shape⟩ := starts
    rw [run_literal shape.symm] at ran
    exact ⟨more,shape.symm,ran⟩
  · rw [fails_literal starts] at ran
    cases ran

theorem Takes.sequence {others : List Pattern} (one : first.Takes cursor middle)
    (more : (Pattern.sequence others).Takes middle next) :
    (Pattern.sequence (first :: others)).Takes cursor next := by
  intro α go result goes
  rw [run_sequence]
  exact one (more goes)

theorem takes_notAhead (fails : (body.run cursor fun _ => some ()) = none) :
    (notAhead body).Takes cursor cursor := by
  intro α go result goes
  rw [run_notAhead,fails,goes]
  rfl

theorem Takes.capture {text more : List Char} (starts : cursor.rest = text ++ more)
    (takes : body.Takes cursor (cursor.past text)) (index : Nat) :
    (Pattern.capture index body).Takes cursor
      ((cursor.past text).hold index cursor.position text) := by
  intro α go result goes
  apply takes
  simpa [Cursor.past,Cursor.hold,starts] using goes

theorem places_eq {step : Cursor → Option Cursor} (left : List Char) (cursor : Cursor)
    (done : List Cursor) : places step left cursor done = places step left cursor [] ++ done := by
  induction left generalizing cursor done with
  | nil => rfl
  | cons c left ih =>
    rw [places_cons,places_cons]
    split
    · rfl
    · rw [ih,ih _ [cursor],List.append_assoc]
      rfl

theorem takes_longest_stop (fails : body.Fails cursor) : (longest body).Takes cursor cursor := by
  intro α go result goes
  rw [run_longest]
  have here : places (fun place => body.run place some) cursor.rest cursor [] = [cursor] := by
    cases cursor.rest with
    | nil => rfl
    | cons c rest => rw [places_cons,fails]
  rw [here,List.findSome?_cons,goes]

theorem takes_longest_step {next : Cursor} (shorter : ∃ c, cursor.rest = c :: middle.rest)
    (step : body.Takes cursor middle) (others : (longest body).Takes middle next) :
    (longest body).Takes cursor next := by
  intro α go result goes
  obtain ⟨c,starts⟩ := shorter
  have further := others goes
  rw [run_longest] at further ⊢
  rw [starts,places_cons]
  have moved : body.run cursor some = some middle := step rfl
  simp only [moved]
  rw [places_eq,List.findSome?_append,further]
  rfl

/-- As many characters as are taken one by one. -/
theorem takes_longest_text {text more : List Char} (starts : cursor.rest = text ++ more)
    (steps : ∀ before c after, text = before ++ c :: after →
      body.Takes (cursor.past before) ((cursor.past before).past [c]))
    (stops : body.Fails (cursor.past text)) : (longest body).Takes cursor (cursor.past text) := by
  induction text generalizing cursor with
  | nil =>
    rw [Cursor.past_nil] at stops ⊢
    exact takes_longest_stop stops
  | cons c text ih =>
    have rest := Cursor.rest_past [c] starts
    have here := steps [] c text rfl
    rw [Cursor.past_nil] at here
    have others := ih rest (fun before d after shape => by
      have behind := steps (c :: before) d after (congrArg (c :: ·) shape)
      rwa [← List.singleton_append,← Cursor.past_past] at behind) (by rwa [Cursor.past_past])
    rw [Cursor.past_past] at others
    exact takes_longest_step ⟨c,by rw [starts,rest]; rfl⟩ here others

theorem takes_longest1_text {text more : List Char} (starts : cursor.rest = text ++ more)
    (nonempty : text ≠ [])
    (steps : ∀ before c after, text = before ++ c :: after →
      body.Takes (cursor.past before) ((cursor.past before).past [c]))
    (stops : body.Fails (cursor.past text)) : (longest1 body).Takes cursor (cursor.past text) := by
  obtain ⟨c,text,rfl⟩ := List.exists_cons_of_ne_nil nonempty
  have here := steps [] c text rfl
  rw [Cursor.past_nil] at here
  have others := takes_longest_text (Cursor.rest_past [c] starts) (fun before d after shape => by
    have behind := steps (c :: before) d after (congrArg (c :: ·) shape)
    rwa [← List.singleton_append,← Cursor.past_past] at behind) (by rwa [Cursor.past_past])
  rw [Cursor.past_past] at others
  exact .seq here others

/-- As many characters as are accepted. -/
theorem takes_longest_one {accepts : Char → Bool} {text more : List Char}
    (starts : cursor.rest = text ++ more) (accepted : ∀ c ∈ text, accepts c = true)
    (refused : ∀ c, more.head? = some c → accepts c = false) :
    (longest (one accepts)).Takes cursor (cursor.past text) := by
  refine takes_longest_text starts ?_ (fails_one (by rwa [Cursor.rest_past text starts]))
  rintro before c after rfl
  rw [List.append_assoc] at starts
  exact takes_one (Cursor.rest_past before starts) (accepted c (by simp))

theorem takes_longest1_one {accepts : Char → Bool} {text more : List Char}
    (starts : cursor.rest = text ++ more) (nonempty : text ≠ [])
    (accepted : ∀ c ∈ text, accepts c = true)
    (refused : ∀ c, more.head? = some c → accepts c = false) :
    (longest1 (one accepts)).Takes cursor (cursor.past text) := by
  refine takes_longest1_text starts nonempty ?_ (fails_one (by rwa [Cursor.rest_past text starts]))
  rintro before c after rfl
  rw [List.append_assoc] at starts
  exact takes_one (Cursor.rest_past before starts) (accepted c (by simp))

theorem takes_upTo_stop (fails : body.Fails cursor) (limit : Nat) :
    (upTo limit body).Takes cursor cursor := by
  intro α go result goes
  cases limit with
  | zero => exact goes
  | succ limit =>
    have here := rounds_succ cursor go (fun place more => body.run place more) limit
    rw [fails,goes] at here
    exact here

theorem takes_upTo_step {limit : Nat} (step : body.Takes cursor middle)
    (others : (upTo limit body).Takes middle next) : (upTo (limit + 1) body).Takes cursor next := by
  intro α go result goes
  have here := rounds_succ cursor go (fun place more => body.run place more) limit
  rw [step (others goes)] at here
  exact here

/-- The characters left bound the rounds. -/
theorem takes_many (rounds : (upTo cursor.rest.length body).Takes cursor next) :
    (many body).Takes cursor next := rounds

end Moves

section Ways

/-- The pattern has a way from a cursor to another one, preferred or not. How many rounds there may be
is left open. -/
def Reaches : Pattern → Cursor → Cursor → Prop
  | nothing, cursor, next => next = cursor
  | one accepts, cursor, next =>
    ∃ c rest, cursor.rest = c :: rest ∧ accepts c = true ∧ next = cursor.past [c]
  | seq first second, cursor, next =>
    ∃ middle, first.Reaches cursor middle ∧ second.Reaches middle next
  | either first second, cursor, next => first.Reaches cursor next ∨ second.Reaches cursor next
  | upTo _ body, cursor, next => ReflTransGen body.Reaches cursor next
  | many body, cursor, next => ReflTransGen body.Reaches cursor next
  | longest body, cursor, next => ReflTransGen body.Reaches cursor next
  | shortest body, cursor, next => ReflTransGen body.Reaches cursor next
  | border, cursor, next => cursor.atBorder = true ∧ next = cursor
  | notAhead body, cursor, next => body.run cursor (fun _ => some ()) = none ∧ next = cursor
  | capture index body, cursor, next => ∃ stop, body.Reaches cursor stop ∧
      next = stop.hold index cursor.position (cursor.rest.take (stop.position - cursor.position))

variable {α : Type} {cursor : Cursor}

theorem mem_places {step : Cursor → Option Cursor} {left : List Char} {next : Cursor}
    (member : next ∈ places step left cursor []) :
    ReflTransGen (fun place after => step place = some after) cursor next := by
  induction left generalizing cursor with
  | nil => rw [List.mem_singleton.mp member]
  | cons c left ih =>
    rw [places_cons] at member
    split at member
    · rw [List.mem_singleton.mp member]
    · next after stepped =>
      rw [places_eq,List.mem_append,List.mem_singleton] at member
      rcases member with later | rfl
      · exact .head stepped (ih later)
      · exact .refl

theorem nearest_some {step : Cursor → Option Cursor} {go : Cursor → Option α}
    {left : List Char} {result : α} (ran : nearest step go left cursor = some result) :
    ∃ next, go next = some result ∧
      ReflTransGen (fun place after => step place = some after) cursor next := by
  induction left generalizing cursor with
  | nil => exact ⟨cursor,ran,.refl⟩
  | cons c left ih =>
    rw [nearest] at ran
    split at ran
    · next goes => cases ran; exact ⟨cursor,goes,.refl⟩
    · split at ran
      · cases ran
      · next after stepped =>
        obtain ⟨next,goes,steps⟩ := ih ran
        exact ⟨next,goes,.head stepped steps⟩

theorem rounds_some {ways : Cursor → Cursor → Prop} {step : Cursor → (Cursor → Option α) → Option α}
    {go : Cursor → Option α} {limit : Nat} {result : α}
    (each : ∀ place more, step place more = some result →
      ∃ after, ways place after ∧ more after = some result)
    (ran : rounds step go limit cursor = some result) :
    ∃ next, ReflTransGen ways cursor next ∧ go next = some result := by
  induction limit generalizing cursor with
  | zero => exact ⟨cursor,.refl,ran⟩
  | succ limit ih =>
    rw [rounds_succ] at ran
    split at ran
    · next stepped =>
      cases ran
      obtain ⟨after,way,more⟩ := each _ _ stepped
      obtain ⟨next,others,goes⟩ := ih more
      exact ⟨next,.head way others,goes⟩
    · exact ⟨cursor,.refl,ran⟩

/-- A run that succeeds went on from a place to which the pattern has a way. -/
theorem reaches_of_run {pattern : Pattern} {go : Cursor → Option α} {result : α}
    (ran : pattern.run cursor go = some result) :
    ∃ next, pattern.Reaches cursor next ∧ go next = some result := by
  -- A round that is matched in its preferred way.
  have single {body : Pattern} {place after : Cursor}
      (above : ∀ {result : Cursor}, body.run place some = some result →
        ∃ next, body.Reaches place next ∧ some next = some result)
      (stepped : body.run place some = some after) : body.Reaches place after := by
    obtain ⟨_,way,same⟩ := above stepped
    cases same
    exact way
  induction pattern generalizing α cursor with
  | nothing => exact ⟨cursor,rfl,ran⟩
  | one accepts =>
    obtain ⟨c,rest,starts,accepted,goes⟩ := one_some ran
    exact ⟨_,⟨c,rest,starts,accepted,rfl⟩,goes⟩
  | seq first second one two =>
    obtain ⟨middle,way,further⟩ := one ran
    obtain ⟨next,others,goes⟩ := two further
    exact ⟨next,⟨middle,way,others⟩,goes⟩
  | either first second one two =>
    rcases either_some ran with found | found
    · obtain ⟨next,way,goes⟩ := one found
      exact ⟨next,.inl way,goes⟩
    · obtain ⟨next,way,goes⟩ := two found
      exact ⟨next,.inr way,goes⟩
  | upTo limit body ih => exact rounds_some (fun _ _ stepped => ih stepped) ran
  | many body ih => exact rounds_some (fun _ _ stepped => ih stepped) ran
  | longest body ih =>
    obtain ⟨next,inside,goes⟩ := List.exists_of_findSome?_eq_some ran
    exact ⟨next,ReflTransGen.mono (fun _ _ => single ih) _ _ (mem_places inside),goes⟩
  | shortest body ih =>
    obtain ⟨next,goes,steps⟩ := nearest_some ran
    exact ⟨next,ReflTransGen.mono (fun _ _ => single ih) _ _ steps,goes⟩
  | border =>
    rw [run_border] at ran
    split at ran
    · next here => exact ⟨cursor,⟨here,rfl⟩,ran⟩
    · cases ran
  | notAhead body _ =>
    rw [run_notAhead] at ran
    split at ran
    · cases ran
    · next bare => exact ⟨cursor,⟨by simpa using bare,rfl⟩,ran⟩
  | capture index body ih =>
    obtain ⟨stop,way,goes⟩ := ih ran
    exact ⟨_,⟨stop,way,rfl⟩,goes⟩

theorem spells_of_one {accepts : Char → Bool} {next : Cursor}
    (way : (one accepts).Reaches cursor next) :
    ∃ c, accepts c = true ∧ cursor.Spells [c] next := by
  obtain ⟨c,rest,starts,accepted,rfl⟩ := way
  exact ⟨c,accepted,by rw [starts,Cursor.rest_past [c] starts]; rfl,rfl⟩

theorem reaches_sequence {first : Pattern} {others : List Pattern} {next : Cursor}
    (way : (sequence (first :: others)).Reaches cursor next) :
    ∃ middle, first.Reaches cursor middle ∧ (sequence others).Reaches middle next := by
  cases others with
  | nil => exact ⟨next,way,rfl⟩
  | cons => exact way

theorem spells_of_literal {text : List Char} {next : Cursor}
    (way : (literal text).Reaches cursor next) : cursor.Spells text next := by
  induction text generalizing cursor with
  | nil =>
    cases way
    exact next.spells_nil
  | cons c text ih =>
    obtain ⟨middle,first,others⟩ := reaches_sequence way
    obtain ⟨d,same,spells⟩ := spells_of_one first
    cases beq_iff_eq.mp same
    exact spells.append (ih others)

end Ways

section Over

/-- All characters that the pattern reads are of a kind. -/
def Over (kind : Char → Prop) : Pattern → Prop
  | nothing => True
  | one accepts => ∀ c, accepts c = true → kind c
  | seq first second => first.Over kind ∧ second.Over kind
  | either first second => first.Over kind ∧ second.Over kind
  | upTo _ body => body.Over kind
  | many body => body.Over kind
  | longest body => body.Over kind
  | shortest body => body.Over kind
  | border => True
  | notAhead _ => True
  | capture _ body => body.Over kind

/-- The second cursor is the first one after characters of a kind, of which new captures are
made. -/
structure Reads (kind : Char → Prop) (cursor next : Cursor) : Prop where
  text : ∃ front, (∀ c ∈ front, kind c) ∧ cursor.rest = front ++ next.rest ∧
    next.position = cursor.position + front.length
  captures : ∀ entry ∈ next.captures, entry ∈ cursor.captures ∨ ∀ c ∈ entry.2.text, kind c

variable {kind : Char → Prop}

theorem Reads.refl (cursor : Cursor) : Reads kind cursor cursor :=
  ⟨⟨[],nofun,rfl,rfl⟩,fun _ => .inl⟩

theorem Reads.trans {cursor middle next : Cursor} (first : Reads kind cursor middle)
    (second : Reads kind middle next) : Reads kind cursor next := by
  obtain ⟨⟨front,low,starts,reached⟩,one⟩ := first
  obtain ⟨⟨back,high,goes,far⟩,two⟩ := second
  refine ⟨⟨front ++ back,?_,by rw [starts,goes,List.append_assoc],?_⟩,?_⟩
  · intro c member
    exact (List.mem_append.mp member).elim (low c) (high c)
  · rw [far,reached,List.length_append,Nat.add_assoc]
  · intro entry member
    exact (two entry member).elim (one entry) .inr

/-- A capture holds what was read since its start. -/
theorem Reads.hold {cursor next : Cursor} (read : Reads kind cursor next) (index : Nat) :
    Reads kind cursor (next.hold index cursor.position
      (cursor.rest.take (next.position - cursor.position))) := by
  obtain ⟨⟨front,inside,starts,reached⟩,captures⟩ := read
  refine ⟨⟨front,inside,starts,reached⟩,?_⟩
  intro entry member
  rcases List.mem_cons.mp member with rfl | earlier
  · right
    rwa [reached,Nat.add_sub_cancel_left,starts,List.take_left]
  · exact captures entry earlier

theorem Reads.of_steps {ways : Cursor → Cursor → Prop} {cursor next : Cursor}
    (each : ∀ place after, ways place after → Reads kind place after)
    (steps : ReflTransGen ways cursor next) : Reads kind cursor next := by
  induction steps with
  | refl => exact .refl cursor
  | tail _ last ih => exact ih.trans (each _ _ last)

/-- A way of the pattern leads over characters of the kind. -/
theorem Over.of_reaches {pattern : Pattern} (covered : pattern.Over kind) {cursor next : Cursor}
    (way : pattern.Reaches cursor next) : Reads kind cursor next := by
  induction pattern generalizing cursor next with
  | nothing => cases way; exact .refl cursor
  | one accepts =>
    obtain ⟨c,rest,starts,accepted,rfl⟩ := way
    refine ⟨⟨[c],by simpa using covered c accepted,by simp [Cursor.past,starts],rfl⟩,?_⟩
    exact fun _ => .inl
  | seq first second one two =>
    obtain ⟨middle,way,others⟩ := way
    exact (one covered.1 way).trans (two covered.2 others)
  | either first second one two => exact way.elim (one covered.1) (two covered.2)
  | upTo limit body ih => exact .of_steps (fun _ _ => ih covered) way
  | many body ih => exact .of_steps (fun _ _ => ih covered) way
  | longest body ih => exact .of_steps (fun _ _ => ih covered) way
  | shortest body ih => exact .of_steps (fun _ _ => ih covered) way
  | border => rw [way.2]; exact .refl cursor
  | notAhead body _ => rw [way.2]; exact .refl cursor
  | capture index body ih =>
    obtain ⟨stop,way,rfl⟩ := way
    exact (ih covered way).hold index

/-- A run that succeeds went on from a place reached over characters of the kind. -/
theorem Over.reads {pattern : Pattern} (covered : pattern.Over kind) {α : Type} {cursor : Cursor}
    {go : Cursor → Option α} {result : α} (ran : pattern.run cursor go = some result) :
    ∃ next, go next = some result ∧ Reads kind cursor next := by
  obtain ⟨next,way,goes⟩ := reaches_of_run ran
  exact ⟨next,goes,covered.of_reaches way⟩

/-- The pattern makes no captures. -/
def isBare : Pattern → Bool
  | seq first second => first.isBare && second.isBare
  | either first second => first.isBare && second.isBare
  | upTo _ body => body.isBare
  | many body => body.isBare
  | longest body => body.isBare
  | shortest body => body.isBare
  | capture _ _ => false
  | _ => true

/-- A pattern without captures leads on by a text of the kind. -/
theorem Over.spells {pattern : Pattern} (covered : pattern.Over kind) (bare : pattern.isBare = true)
    {cursor next : Cursor} (way : pattern.Reaches cursor next) :
    ∃ text, (∀ c ∈ text, kind c) ∧ cursor.Spells text next := by
  have further {cursor middle next : Cursor}
      (first : ∃ text, (∀ c ∈ text, kind c) ∧ cursor.Spells text middle)
      (second : ∃ text, (∀ c ∈ text, kind c) ∧ middle.Spells text next) :
      ∃ text, (∀ c ∈ text, kind c) ∧ cursor.Spells text next := by
    obtain ⟨front,low,one⟩ := first
    obtain ⟨back,high,two⟩ := second
    refine ⟨front ++ back,?_,one.append two⟩
    intro c member
    exact (List.mem_append.mp member).elim (low c) (high c)
  have here (cursor : Cursor) : ∃ text, (∀ c ∈ text, kind c) ∧ cursor.Spells text cursor :=
    ⟨[],nofun,cursor.spells_nil⟩
  have steps {ways : Cursor → Cursor → Prop} {cursor next : Cursor}
      (each : ∀ {place after : Cursor}, ways place after →
        ∃ text, (∀ c ∈ text, kind c) ∧ place.Spells text after)
      (way : ReflTransGen ways cursor next) :
      ∃ text, (∀ c ∈ text, kind c) ∧ cursor.Spells text next := by
    induction way with
    | refl => exact here cursor
    | tail _ last ih => exact further ih (each last)
  induction pattern generalizing cursor next with
  | nothing => cases way; exact here cursor
  | one accepts =>
    obtain ⟨c,accepted,spells⟩ := spells_of_one way
    exact ⟨[c],by simpa using covered c accepted,spells⟩
  | seq first second one two =>
    rw [isBare,Bool.and_eq_true] at bare
    obtain ⟨middle,way,others⟩ := way
    exact further (one covered.1 bare.1 way) (two covered.2 bare.2 others)
  | either first second one two =>
    rw [isBare,Bool.and_eq_true] at bare
    exact way.elim (one covered.1 bare.1) (two covered.2 bare.2)
  | upTo limit body ih => exact steps (ih covered bare) way
  | many body ih => exact steps (ih covered bare) way
  | longest body ih => exact steps (ih covered bare) way
  | shortest body ih => exact steps (ih covered bare) way
  | border => rw [way.2]; exact here cursor
  | notAhead body _ => rw [way.2]; exact here cursor
  | capture index body _ => cases bare

/-- One character or more of those that are accepted. -/
theorem spells_of_longest1 {accepts : Char → Bool} {cursor next : Cursor}
    (way : (longest1 (one accepts)).Reaches cursor next) :
    ∃ text, text ≠ [] ∧ (∀ c ∈ text, accepts c = true) ∧ cursor.Spells text next := by
  obtain ⟨middle,first,others⟩ := way
  obtain ⟨c,accepted,spells⟩ := spells_of_one first
  have covered : (longest (one accepts)).Over fun c => accepts c = true := fun _ => id
  obtain ⟨text,more,further⟩ := covered.spells rfl others
  exact ⟨c :: text,List.cons_ne_nil c text,List.forall_mem_cons.mpr ⟨accepted,more⟩,
    spells.append further⟩

theorem over_true (pattern : Pattern) : pattern.Over fun _ => True := by
  induction pattern with
  | seq first second one two => exact ⟨one,two⟩
  | either first second one two => exact ⟨one,two⟩
  | upTo limit body ih => exact ih
  | many body ih => exact ih
  | longest body ih => exact ih
  | shortest body ih => exact ih
  | capture index body ih => exact ih
  | one accepts => exact fun _ _ => trivial
  | nothing => trivial
  | border => trivial
  | notAhead => trivial

end Over

end Pattern

end JavaAtlas
