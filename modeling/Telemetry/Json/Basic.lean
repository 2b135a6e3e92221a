import Telemetry.Decimal.Style
import Telemetry.Text.Digits

/-!
# Data as JSON text

Values of the JSON data format and their compact text: no blanks, members in the order given, and
strings with as few escapes as the format allows. Numbers that are no finite number are written as
null.
-/

namespace Telemetry

/-- A JSON value. Integers are kept apart from other numbers. -/
inductive Json where
  | null
  | bool (value : Bool)
  | integer (value : Int)
  | number (value : Binary64)
  | string (value : String)
  | array (items : List Json)
  | object (members : List (String × Json))

namespace Json

/-- A character inside a string. -/
def escape (c : Char) : List Char :=
  if c = '\"' ∨ c = '\\' then ['\\', c]
  else if c = '\n' then ['\\', 'n']
  else if c = '\r' then ['\\', 'r']
  else if c = '\t' then ['\\', 't']
  else if c = '\x08' then ['\\', 'b']
  else if c = '\x0c' then ['\\', 'f']
  else if c.toNat < 0x20 then ['\\', 'u', '0', '0'] ++ Text.lowerByte (UInt8.ofNat c.toNat)
  else [c]

/-- A string in its quotes. -/
def quoted (text : String) : List Char :=
  ['\"'] ++ text.toList.flatMap escape ++ ['\"']

/-- The text of an integer. -/
def integerText (value : Int) : List Char :=
  (if value < 0 then ['-'] else []) ++ Nat.toDigits 10 value.natAbs

mutual

def text : Json → List Char
  | .null => ['n', 'u', 'l', 'l']
  | .bool true => ['t', 'r', 'u', 'e']
  | .bool false => ['f', 'a', 'l', 's', 'e']
  | .integer value => integerText value
  | .number value =>
    if value.isFinite then (NumberStyle.exchange.render value).toList else ['n', 'u', 'l', 'l']
  | .string value => quoted value
  | .array [] => ['[', ']']
  | .array (item :: items) => ['['] ++ text item ++ textItems items ++ [']']
  | .object [] => ['\x7b', '\x7d']
  | .object ((name, value) :: members) =>
    ['\x7b'] ++ quoted name ++ [':'] ++ text value ++ textMembers members ++ ['\x7d']

/-- The text of the items after the first, each behind a comma. -/
def textItems : List Json → List Char
  | [] => []
  | item :: items => [','] ++ text item ++ textItems items

/-- The text of the members after the first, each behind a comma. -/
def textMembers : List (String × Json) → List Char
  | [] => []
  | (name, value) :: members => [','] ++ quoted name ++ [':'] ++ text value ++ textMembers members

end

def render (value : Json) : String :=
  String.ofList value.text

end Json

end Telemetry
