import JavaAtlas.Text.WordTable
import JavaAtlas.Text.PrintTable

/-! The classes of characters on which scanning, trimming and quoting rest. ASCII is decided by
arithmetic alone, so that evaluation of a closed example never reaches a table. -/
namespace JavaAtlas.Text

def isWord (c : Char) : Bool :=
  if c.toNat < 128 then c.isAlphanum || c == '_' else letterOrNumber.contains c.toNat

/-- The characters that separate words, line breaks and the four information separators included. -/
def isBlank (c : Char) : Bool :=
  let n := c.toNat
  (9 ≤ n && n ≤ 13) || (28 ≤ n && n ≤ 32) || n == 0x85 || n == 0xA0 || n == 0x1680 ||
    (0x2000 ≤ n && n ≤ 0x200A) || n == 0x2028 || n == 0x2029 || n == 0x202F || n == 0x205F ||
    n == 0x3000

def digitValue? (c : Char) : Option Nat :=
  if c.toNat < 128 then
    if c.isDigit then some (c.toNat - 48) else none
  else
    (decimalZeros.find? fun first => first ≤ c.toNat && c.toNat ≤ first + 9).map (c.toNat - ·)

def isPrintable (c : Char) : Bool :=
  if c.toNat < 127 then 32 ≤ c.toNat else !unprintable.contains c.toNat

end JavaAtlas.Text
