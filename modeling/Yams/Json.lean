/-
JSON values and their compact text: no white space, the fields in order, and
exactly the escapes that the grammar demands.
-/
import Yams.Text

namespace Yams

/-- A JSON value; an object keeps its fields in order, repeated keys included. -/
inductive Json
  | null
  | bool (value : Bool)
  | num (value : Nat)
  | str (value : Text)
  | arr (items : List Json)
  | obj (fields : List (Text × Json))

namespace Json

/-- The two lowercase hexadecimal digits of a control character. -/
def hexDigits (n : Nat) : Text :=
  [Nat.digitChar (n / 16), Nat.digitChar (n % 16)]

/-- One character of a string literal. -/
def escape (c : Char) : Text :=
  if c = '"' then ['\\', '"']
  else if c = '\\' then ['\\', '\\']
  else if c = '\n' then ['\\', 'n']
  else if c = '\r' then ['\\', 'r']
  else if c = '\t' then ['\\', 't']
  else if c.toNat = 8 then ['\\', 'b']
  else if c.toNat = 12 then ['\\', 'f']
  else if c.toNat < 32 then ['\\', 'u', '0', '0'] ++ hexDigits c.toNat
  else [c]

def renderString (text : Text) : Text := '"' :: text.flatMap escape ++ ['"']

mutual

/-- The compact text of a value. -/
def render : Json → Text
  | .null => "null".toList
  | .bool true => "true".toList
  | .bool false => "false".toList
  | .num n => Text.ofNat n
  | .str text => renderString text
  | .arr items => '[' :: renderItems items ++ [']']
  | .obj fields => '{' :: renderFields fields ++ ['}']

def renderItems : List Json → Text
  | [] => []
  | [item] => item.render
  | item :: items => item.render ++ ',' :: renderItems items

def renderFields : List (Text × Json) → Text
  | [] => []
  | [(key, value)] => renderString key ++ ':' :: value.render
  | (key, value) :: fields =>
      renderString key ++ ':' :: value.render ++ ',' :: renderFields fields

end

/-- What a deserializer sees of a text that should be one object: the fields it
reads in order, and whether the text is an object to its end. -/
structure Scan where
  fields : List (Text × Json)
  complete : Bool

end Json

end Yams
