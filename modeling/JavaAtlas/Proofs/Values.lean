import JavaAtlas.Json.Order
import JavaAtlas.Proofs.AdaptiveSorting
import Mathlib.Algebra.Order.Field.Power
import Mathlib.Data.Rat.Cast.Order
import Mathlib.Data.String.Basic
import Mathlib.Tactic.Ring

/-! Values that are sorted and found again. Texts come in the order of their characters, and where
they stand among others sorting fails. -/
namespace JavaAtlas.Json

def text? : Json → Option String
  | .str text => some text
  | _ => none

theorem eq_of_asKey {value key : Json} (hashed : value.asKey = .ok key) : value = key := by
  cases value <;> cases hashed <;> rfl

theorem text?_eq_some {value : Json} {text : String} :
    value.text? = some text ↔ value = .str text := by
  cases value <;> simp [text?]

/-- Texts first, in their order. -/
def Precedes (first second : Json) : Prop :=
  ∀ later ∈ second.text?, ∃ earlier ∈ first.text?, earlier ≤ later

instance : IsTrans Json Precedes where
  trans first second third near far := by
    intro last there
    obtain ⟨middle,between,less⟩ := far last there
    obtain ⟨earlier,here,lesser⟩ := near middle between
    exact ⟨earlier,here,le_trans lesser less⟩

theorem precedes_of_text?_eq_none {second : Json} (other : second.text? = none) (first : Json) :
    Precedes first second := by
  intro later there
  rw [other] at there
  nomatch there

@[simp] theorem precedes_str {first second : String} :
    Precedes (.str first) (.str second) ↔ first ≤ second := by
  simp [Precedes,text?]

/-- A comparison with a text is answered only if it is one of two texts. -/
theorem precedes_of_isBefore {first second : Json} {earlier : Bool}
    (said : isBefore first second = .ok earlier) :
    if earlier then Precedes first second else Precedes second first := by
  have others (one : first.text? = none) (two : second.text? = none) :
      if earlier then Precedes first second else Precedes second first := by
    split
    · exact precedes_of_text?_eq_none two first
    · exact precedes_of_text?_eq_none one second
  cases first with
  | str one =>
    cases second with
    | str two =>
      rw [isBefore] at said
      obtain rfl := Except.ok.inj said
      simp only [decide_eq_true_eq,precedes_str]
      split
      · next less => exact le_of_lt less
      · next notLess => exact not_lt.mp notLess
    | _ => simp [isBefore,isNumber,whole?] at said
  | _ =>
    cases second with
    | str two => simp [isBefore,isNumber,whole?] at said
    | _ => exact others rfl rfl

theorem orders_isBefore (values : List Json) :
    Sorting.Orders (fun mismatch => ∃ first ∈ values, ∃ second ∈ values,
      isBefore first second = .error mismatch) isBefore (· ∈ values) Precedes where
  told {first second} here there := by
    cases said : isBefore first second with
    | ok earlier => exact precedes_of_isBefore said
    | error mismatch => exact ⟨first,here,second,there,said⟩

/-- What is sorted has the same members, the texts among them in order. Only what is no text makes
sorting fail. -/
theorem sorted_yields (values : List Json) :
    Yields (fun _ => ∃ value ∈ values, value.text? = none)
      (fun ordered => ordered.Perm values ∧ (ordered.filterMap text?).Pairwise (· ≤ ·))
      (sorted values) := by
  apply ((Sorting.sorted_row (orders_isBefore values) fun _ member => member).weaken ?_).mono
  · intro ordered ⟨same,row⟩
    refine ⟨same,List.pairwise_filterMap.mpr (row.ordered.imp ?_)⟩
    intro first second less earlier here later there
    obtain ⟨other,text,below⟩ := less later there
    rw [here] at text
    exact Option.some.inj text ▸ below
  · intro mismatch ⟨first,here,second,there,refused⟩
    cases first with
    | str =>
      cases second with
      | str => simp [isBefore] at refused
      | _ => exact ⟨_,there,rfl⟩
    | _ => exact ⟨_,here,rfl⟩

/-- What a value is worth where it is looked for: numbers of all kinds are what they stand for. -/
inductive Worth where
  | nothing
  | text (text : String)
  | number (value : ℚ)
  | infinite (negative : Bool)
  | undefined
  | composite

def sign (negative : Bool) : Int := if negative then -1 else 1

def worthOfFloat : Binary64 → Worth
  | .finite negative significand exponent => .number (sign negative * significand * 2 ^ exponent)
  | .infinite negative => .infinite negative
  | .notANumber => .undefined

def worth : Json → Worth
  | .null => .nothing
  | .bool value => .number (if value then 1 else 0)
  | .int value => .number value
  | .float value => worthOfFloat value
  | .str text => .text text
  | _ => .composite

@[simp] theorem worthOfFloat_ne_nothing (value : Binary64) : worthOfFloat value ≠ .nothing := by
  cases value <;> nofun

@[simp] theorem worthOfFloat_ne_text (value : Binary64) (text : String) :
    worthOfFloat value ≠ .text text := by
  cases value <;> nofun

@[simp] theorem worthOfFloat_ne_composite (value : Binary64) :
    worthOfFloat value ≠ .composite := by
  cases value <;> nofun

theorem worth_of_whole? {value : Json} {whole : Int} (same : value.whole? = some whole) :
    value.worth = .number whole := by
  cases value with
  | bool flag => cases flag <;> cases same <;> simp [worth]
  | int number => cases same; rfl
  | _ => cases same

theorem cast_raise {power : Int} (whole : 0 ≤ power) :
    ((Binary64.raise 2 power : Nat) : ℚ) = 2 ^ power := by
  change ((2 ^ power.toNat : Nat) : ℚ) = 2 ^ power
  rw [Nat.cast_pow,Nat.cast_ofNat,← zpow_natCast,Int.toNat_of_nonneg whole]

theorem raise_of_nonpos {power : Int} (small : power ≤ 0) : Binary64.raise 2 power = 1 := by
  change 2 ^ power.toNat = 1
  rw [Int.toNat_of_nonpos small,pow_zero]

/-- Of a power and its inverse one is whole, so that the quotient of both is exact. -/
theorem cast_raise_eq_mul (power : Int) : ((Binary64.raise 2 power : Nat) : ℚ) =
    2 ^ power * ((Binary64.raise 2 (-power) : Nat) : ℚ) := by
  rcases le_total 0 power with large | small
  · rw [raise_of_nonpos (neg_nonpos.mpr large),cast_raise large,Nat.cast_one,mul_one]
  · rw [raise_of_nonpos small,cast_raise (neg_nonneg.mpr small),Nat.cast_one,
      ← zpow_add₀ two_ne_zero,add_neg_cancel,zpow_zero]

theorem order?_eq_iff {first second : Binary64} :
    first.order? second = some .eq ↔
      worthOfFloat first = worthOfFloat second ∧ first ≠ .notANumber := by
  cases first with
  | finite negative significand exponent =>
    cases second with
    | finite negative' significand' exponent' =>
      have scaled (negative : Bool) (significand : Nat) {exponent common : Int}
          (least : common ≤ exponent) :
          ((sign negative *
              ((significand * Binary64.raise 2 (exponent - common) : Nat) : Int) : Int) : ℚ) =
            sign negative * significand * 2 ^ exponent * (2 ^ common)⁻¹ := by
        push_cast
        rw [cast_raise (sub_nonneg.mpr least),zpow_sub₀ two_ne_zero]
        ring
      have positive : ((2 : ℚ) ^ min exponent exponent')⁻¹ ≠ 0 :=
        inv_ne_zero (zpow_ne_zero _ two_ne_zero)
      change some (compare (sign negative * _) (sign negative' * _)) = some .eq ↔ _
      rw [Option.some.injEq,compare_eq_iff_eq,← @Int.cast_inj ℚ,scaled _ _ (min_le_left _ _),
        scaled _ _ (min_le_right _ _),mul_left_inj' positive]
      simp [worthOfFloat]
    | infinite negative' => cases negative' <;> simp [Binary64.order?,worthOfFloat]
    | notANumber => simp [Binary64.order?,worthOfFloat]
  | infinite negative =>
    cases second with
    | infinite negative' =>
      cases negative <;> cases negative' <;> simp [Binary64.order?,worthOfFloat]
    | _ => cases negative <;> simp [Binary64.order?,worthOfFloat]
  | notANumber => simp [Binary64.order?]

theorem orderInt?_eq_iff {whole : Int} {value : Binary64} :
    value.orderInt? whole = some .eq ↔ worthOfFloat value = .number whole := by
  cases value with
  | finite negative significand exponent =>
    have positive : ((Binary64.raise 2 (-exponent) : Nat) : ℚ) ≠ 0 :=
      Nat.cast_ne_zero.mpr (Nat.pow_pos Nat.two_pos).ne'
    change some (compare (whole * _) (sign negative * _)) = some .eq ↔ _
    rw [Option.some.injEq,compare_eq_iff_eq,← @Int.cast_inj ℚ]
    push_cast
    rw [cast_raise_eq_mul exponent,← mul_assoc,← mul_assoc,mul_left_inj' positive,eq_comm]
    simp [worthOfFloat]
  | infinite negative => cases negative <;> simp [Binary64.orderInt?,worthOfFloat]
  | notANumber => simp [Binary64.orderInt?,worthOfFloat]

theorem numberOrder?_float {value : Binary64} {other : Json} {whole : Int}
    (same : other.whole? = some whole) :
    (numberOrder? (.float value) other = some .eq ↔ worthOfFloat value = .number whole) ∧
      (numberOrder? other (.float value) = some .eq ↔ worthOfFloat value = .number whole) := by
  have swapped (order : Option Ordering) :
      order.map Ordering.swap = some .eq ↔ order = some .eq := by
    rcases order with _ | (_ | _ | _) <;> simp
  cases other <;> cases same <;> exact ⟨(swapped _).trans orderInt?_eq_iff,orderInt?_eq_iff⟩

theorem numberOrder?_whole {first second : Json} {one two : Int} (left : first.whole? = some one)
    (right : second.whole? = some two) :
    numberOrder? first second = some .eq ↔ first.worth = second.worth := by
  have compared : numberOrder? first second = some (compare one two) := by
    cases first <;> cases left <;> cases second <;> cases right <;> rfl
  rw [compared,Option.some.injEq,compare_eq_iff_eq,worth_of_whole? left,worth_of_whole? right,
    Worth.number.injEq,Int.cast_inj]

theorem isMatch_whole {known : Json} {whole : Int} (same : known.whole? = some whole)
    (sought : Json) : known.isMatch sought = true ↔ known.worth = sought.worth := by
  have asNumber : known.isMatch sought = (numberOrder? known sought == some .eq) := by
    cases known <;> cases same <;> rfl
  rw [asNumber,beq_iff_eq]
  cases sought with
  | bool | int => exact numberOrder?_whole same rfl
  | float value =>
    rw [(numberOrder?_float same).2,worth_of_whole? same]
    exact eq_comm
  | _ =>
    rw [worth_of_whole? same]
    cases known <;> cases same <;> simp [numberOrder?,whole?,worth]

theorem isMatch_float (value : Binary64) (sought : Json) :
    (float value).isMatch sought = true ↔ worthOfFloat value = sought.worth := by
  have asNumber {whole : Int} (same : sought.whole? = some whole) :
      (float value).isMatch sought = (numberOrder? (float value) sought == some .eq) := by
    cases value <;> cases sought <;> cases same <;> rfl
  cases sought with
  | bool | int =>
    rw [asNumber rfl,beq_iff_eq,(numberOrder?_float rfl).1,worth_of_whole? rfl]
  | float other =>
    cases value with
    | notANumber => cases other <;> simp [isMatch,bothUndefined,same,numberOrder?,
        Binary64.order?,worthOfFloat,worth]
    | _ => simp [isMatch,bothUndefined,same,numberOrder?,order?_eq_iff,worth]
  | _ => simp [isMatch,bothUndefined,same,numberOrder?,whole?,worth]

/-- A value that can be a key is found exactly where a value of the same worth is kept. -/
theorem isMatch_iff {known : Json} (key : known.asKey = .ok known) (sought : Json) :
    known.isMatch sought = true ↔ known.worth = sought.worth := by
  cases known with
  | arr => cases key
  | obj => cases key
  | bool | int => exact isMatch_whole rfl sought
  | float value => exact isMatch_float value sought
  | null =>
    cases sought with
    | float value => exact iff_of_false nofun (worthOfFloat_ne_nothing value).symm
    | _ => simp [isMatch,bothUndefined,same,numberOrder?,whole?,worth]
  | str text =>
    cases sought with
    | float value => exact iff_of_false nofun (worthOfFloat_ne_text value text).symm
    | _ => simp [isMatch,bothUndefined,same,numberOrder?,whole?,worth]

theorem isMatch_comm {first second : Json} (one : first.asKey = .ok first)
    (two : second.asKey = .ok second) : first.isMatch second = second.isMatch first := by
  rw [Bool.eq_iff_iff,isMatch_iff one,isMatch_iff two]
  exact eq_comm

theorem isMatch_self {known : Json} (key : known.asKey = .ok known) : known.isMatch known = true :=
  (isMatch_iff key known).mpr rfl

end JavaAtlas.Json
