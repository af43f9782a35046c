/-! Binary floating-point numbers with 53 significant bits. A quotient is rounded to the nearest
of them, halfway between two to the one with the even significand. -/
namespace JavaAtlas

inductive Binary64 where
  /-- The number `significand * 2 ^ exponent` with a sign, which zero has too. -/
  | finite (negative : Bool) (significand : Nat) (exponent : Int)
  | infinite (negative : Bool)
  | notANumber
  deriving DecidableEq, Repr, Inhabited

namespace Binary64

def minExponent : Int := -1074

def maxExponent : Int := 971

def zero (negative : Bool) : Binary64 := .finite negative 0 minExponent

/-- The power of a base, which is one for a negative exponent. A quotient is multiplied by a power
of either sign if `raise base power` goes to its numerator and `raise base (-power)` below. -/
def raise (base : Nat) (power : Int) : Nat := Nat.pow base power.toNat

def roundDiv (num den : Nat) : Nat :=
  let quotient := num / den
  let rest := num % den
  if den < 2 * rest || (2 * rest == den && quotient % 2 == 1) then quotient + 1 else quotient

/-- The largest `k` with `2 ^ k ≤ num / den`, for positive numbers. -/
def log2Div (num den : Nat) : Int :=
  let guess : Int := (Nat.log2 num : Int) - (Nat.log2 den : Int)
  if num * raise 2 (-guess) < den * raise 2 guess then guess - 1 else guess

def nearest (negative : Bool) (num den : Nat) : Binary64 :=
  let exponent := max minExponent (log2Div num den - 52)
  let significand := roundDiv (num * raise 2 (-exponent)) (den * raise 2 exponent)
  let carried := significand == Nat.pow 2 53
  let exponent := if carried then exponent + 1 else exponent
  if maxExponent < exponent then .infinite negative
  else .finite negative (if carried then Nat.pow 2 52 else significand) exponent

/-- The number nearest to `coefficient * 10 ^ power`. Powers far beyond the range of the numbers
are told by the place of the first digit. -/
def ofDecimal (negative : Bool) (coefficient : Nat) (power : Int) : Binary64 :=
  let place : Int := ((Nat.toDigits 10 coefficient).length : Int) + power
  if coefficient == 0 || place < -330 then zero negative
  else if 310 < place then .infinite negative
  else nearest negative (coefficient * raise 10 power) (raise 10 (-power))

def order? : Binary64 → Binary64 → Option Ordering
  | .notANumber, _ => none
  | _, .notANumber => none
  | .infinite first, .infinite second => some (compare second first)
  | .infinite negative, .finite .. => some (if negative then .lt else .gt)
  | .finite .., .infinite negative => some (if negative then .gt else .lt)
  | .finite negative significand exponent, .finite negative' significand' exponent' =>
    let common := min exponent exponent'
    let value (negative : Bool) (significand : Nat) (exponent : Int) : Int :=
      (if negative then -1 else 1) * ((significand * raise 2 (exponent - common) : Nat) : Int)
    some (compare (value negative significand exponent) (value negative' significand' exponent'))

def orderInt? (whole : Int) : Binary64 → Option Ordering
  | .notANumber => none
  | .infinite negative => some (if negative then .gt else .lt)
  | .finite negative significand exponent =>
    let value : Int := (if negative then -1 else 1) * (significand * raise 2 exponent : Nat)
    some (compare (whole * raise 2 (-exponent)) value)

end Binary64

end JavaAtlas
