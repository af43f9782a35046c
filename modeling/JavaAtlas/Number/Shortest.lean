import JavaAtlas.Number.Binary64

/-! The decimal text of a binary number: the fewest digits that read back as the number, and of
those the nearest to it. -/
namespace JavaAtlas.Binary64

def log10Div (num den : Nat) : Int :=
  if den ≤ num then ((Nat.toDigits 10 (num / den)).length : Int) - 1
  else
    let zeros := (List.range 400).find? fun zeros => den ≤ num * Nat.pow 10 (zeros + 1)
    .negSucc (zeros.getD 0)

/-- The two neighbours of a quotient among the decimals with `count` digits, the nearer first and
halfway the even one, each as a coefficient with its power of ten. -/
def neighbours (num den count : Nat) : List (Nat × Int) :=
  let power := log10Div num den - (count : Int) + 1
  let scaled := num * raise 10 (-power)
  let unit := den * raise 10 power
  let below := scaled / unit
  if roundDiv scaled unit == below then [(below,power),(below + 1,power)]
  else [(below + 1,power),(below,power)]

/-- The nearest of the shortest decimals that read back as `significand * 2 ^ exponent`. The 17
digits of the last try always do. -/
def shortest (significand : Nat) (exponent : Int) : Nat × Int :=
  let num := significand * raise 2 exponent
  let den := raise 2 (-exponent)
  let found := (List.range 17).findSome? fun count =>
    (neighbours num den (count + 1)).find? fun decimal =>
      ofDecimal false decimal.1 decimal.2 == .finite false significand exponent
  found.getD (0,0)

def positional (digits : List Char) (power : Int) : List Char :=
  if power < 0 then ['0','.'] ++ List.replicate (-power - 1).toNat '0' ++ digits
  else
    let whole := power.toNat + 1
    let fraction := digits.drop whole
    digits.take whole ++ List.replicate (whole - digits.length) '0' ++ ['.'] ++
      if fraction.isEmpty then ['0'] else fraction

def scientific (digits : List Char) (power : Int) : List Char :=
  let places := Nat.toDigits 10 power.natAbs
  digits.take 1 ++ (if digits.length ≤ 1 then [] else '.' :: digits.drop 1) ++
    ['e',if power < 0 then '-' else '+'] ++ List.replicate (2 - places.length) '0' ++ places

/-- The text of a finite number without its sign: positional from a ten-thousandth up to, but not
including, ten to the sixteenth. -/
def magnitude (significand : Nat) (exponent : Int) : List Char :=
  if significand == 0 then ['0','.','0']
  else
    let (coefficient,unit) := shortest significand exponent
    let written := Nat.toDigits 10 coefficient
    let power := unit + (written.length : Int) - 1
    let digits := (written.reverse.dropWhile (· == '0')).reverse
    if -4 ≤ power && power < 16 then positional digits power else scientific digits power

def text (notANumber infinity : String) : Binary64 → List Char
  | .notANumber => notANumber.toList
  | .infinite negative => (if negative then ['-'] else []) ++ infinity.toList
  | .finite negative significand exponent =>
    (if negative then ['-'] else []) ++ magnitude significand exponent

end JavaAtlas.Binary64
