import JavaAtlas.Json.Basic
import JavaAtlas.Number.Shortest
import JavaAtlas.Text.Integer
import JavaAtlas.Text.Quoted

/-! Documents as text: one item or field a line, two spaces for each level, and ASCII only. A
character beyond the first plane is written as a pair of surrogates. -/
namespace JavaAtlas.Json

def escapedUnit (unit : Nat) : List Char := ['\\','u'] ++ Text.hexDigits 4 unit

def escapedChar (c : Char) : List Char :=
  if c == '"' then ['\\','"']
  else if c == '\\' then ['\\','\\']
  else if c == '\n' then ['\\','n']
  else if c == '\r' then ['\\','r']
  else if c == '\t' then ['\\','t']
  else if c == '\x08' then ['\\','b']
  else if c == '\x0c' then ['\\','f']
  else if 0x20 ≤ c.toNat && c.toNat ≤ 0x7E then [c]
  else if c.toNat < 0x10000 then escapedUnit c.toNat
  else
    let offset := c.toNat - 0x10000
    escapedUnit (0xD800 + offset / 0x400) ++ escapedUnit (0xDC00 + offset % 0x400)

def renderText (text : String) : List Char :=
  '"' :: (text.toList.flatMap escapedChar ++ ['"'])

def newLine (level : Nat) : List Char := '\n' :: List.replicate (2 * level) ' '

def enclose (opening closing : Char) (level : Nat) (parts : List (List Char)) : List Char :=
  if parts.isEmpty then [opening,closing]
  else
    opening :: (newLine (level + 1) ++ (',' :: newLine (level + 1)).intercalate parts ++
      newLine level ++ [closing])

mutual
def render (level : Nat) : Json → List Char
  | .null => "null".toList
  | .bool true => "true".toList
  | .bool false => "false".toList
  | .int value => Text.ofInt value
  | .float value => value.text "NaN" "Infinity"
  | .str value => renderText value
  | .arr items => enclose '[' ']' level (renderItems (level + 1) items)
  | .obj fields => enclose '{' '}' level (renderFields (level + 1) fields)

def renderItems (level : Nat) : List Json → List (List Char)
  | [] => []
  | item :: rest => render level item :: renderItems level rest

def renderFields (level : Nat) : List (String × Json) → List (List Char)
  | [] => []
  | (name,value) :: rest =>
    (renderText name ++ [':',' '] ++ render level value) :: renderFields level rest
end

def print (value : Json) : List Char := render 0 value

end JavaAtlas.Json
