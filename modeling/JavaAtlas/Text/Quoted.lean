import JavaAtlas.Text.CharClass

/-! Text in quotes for messages: what cannot be printed is escaped by its code point. Single
quotes are used unless the text holds one and no double quote. -/
namespace JavaAtlas.Text

def hexDigits (width value : Nat) : List Char :=
  let digits := Nat.toDigits 16 value
  List.replicate (width - digits.length) '0' ++ digits

def quotedChar (quote c : Char) : List Char :=
  if c == quote || c == '\\' then ['\\',c]
  else if c == '\n' then ['\\','n']
  else if c == '\r' then ['\\','r']
  else if c == '\t' then ['\\','t']
  else if isPrintable c then [c]
  else if c.toNat < 0x100 then ['\\','x'] ++ hexDigits 2 c.toNat
  else if c.toNat < 0x10000 then ['\\','u'] ++ hexDigits 4 c.toNat
  else ['\\','U'] ++ hexDigits 8 c.toNat

def quoted (text : List Char) : List Char :=
  let quote := if text.contains '\'' && !text.contains '"' then '"' else '\''
  quote :: (text.flatMap (quotedChar quote) ++ [quote])

end JavaAtlas.Text
