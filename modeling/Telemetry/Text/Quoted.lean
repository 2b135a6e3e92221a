import Telemetry.Text.Digits
import Telemetry.Text.Shapeless

/-!
# Quoted text

Messages show a text between double quotes and a character between single ones. The enclosing quote,
the backslash, the usual control characters and every character without a shape of its own are
written as an escape, so a quoted text is one line and shows exactly what it holds.
-/

namespace Telemetry.Text

/-- A character as its number: the hexadecimal code point in braces. -/
def numericEscape (c : Char) : List Char :=
  ['\\', 'u', '\x7b'] ++ Nat.toDigits 16 c.toNat ++ ['\x7d']

/-- A character inside the given enclosing quote. -/
def escape (quote c : Char) : List Char :=
  if c = quote ∨ c = '\\' then ['\\', c]
  else if c = '\n' then ['\\', 'n']
  else if c = '\r' then ['\\', 'r']
  else if c = '\t' then ['\\', 't']
  else if c = '\x00' then ['\\', '0']
  else if isShapeless c then numericEscape c
  else [c]

/-- A text between double quotes. -/
def quoted (text : String) : String :=
  String.ofList (['\"'] ++ text.toList.flatMap (escape '\"') ++ ['\"'])

/-- A character between single quotes. -/
def quotedChar (c : Char) : String :=
  String.ofList (['\''] ++ escape '\'' c ++ ['\''])

end Telemetry.Text
