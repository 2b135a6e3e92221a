import Telemetry.Decimal.Numeral
import Telemetry.Json.Basic

/-!
# Reading JSON text

`Json.parse?` reads exactly the texts of the JSON data format: one value, with blanks around any of
its parts. Members keep their order and duplicates stay, so that whoever interprets an object decides
about them. An integer is a numeral without point and exponent, other than a negative zero.
-/

namespace Telemetry.Json

/-- The characters that may stand between the parts of a text. -/
def isBlank (c : Char) : Bool :=
  c = ' ' || c = '\t' || c = '\n' || c = '\r'

/-- A text without the blanks in front. -/
def skipBlanks (text : List Char) : List Char :=
  text.dropWhile isBlank

/-! ## Strings -/

/-- The number that four hexadecimal digits spell out. -/
def fourDigits? (a b c d : Char) : Option Nat := do
  let a ← Text.hexDigit? a
  let b ← Text.hexDigit? b
  let c ← Text.hexDigit? c
  let d ← Text.hexDigit? d
  return ((a * 16 + b) * 16 + c) * 16 + d

/-- The character that a letter behind a backslash stands for. -/
def unescape? (letter : Char) : Option Char :=
  match letter with
  | '\"' => some '\"'
  | '\\' => some '\\'
  | '/' => some '/'
  | 'b' => some '\x08'
  | 'f' => some '\x0c'
  | 'n' => some '\n'
  | 'r' => some '\r'
  | 't' => some '\t'
  | _ => none

/-- The character that two escaped units make up, the first being the upper half of a pair. -/
def joinPair? (upper lower : Nat) : Option Char :=
  if 0xDC00 ≤ lower ∧ lower < 0xE000 then
    some (Char.ofNat (0x10000 + (upper - 0xD800) * 0x400 + (lower - 0xDC00)))
  else none

/-- The characters of a string behind its opening quote, and what follows its closing one. -/
def stringBody? : List Char → Option (List Char × List Char)
  | [] => none
  | '\"' :: rest => some ([], rest)
  | '\\' :: 'u' :: a :: b :: c :: d :: rest =>
    match fourDigits? a b c d with
    | none => none
    | some unit =>
      if 0xDC00 ≤ unit ∧ unit < 0xE000 then none
      else if 0xD800 ≤ unit ∧ unit < 0xDC00 then
        match rest with
        | '\\' :: 'u' :: e :: f :: g :: h :: rest => do
          let lower ← fourDigits? e f g h
          let character ← joinPair? unit lower
          let (characters, after) ← stringBody? rest
          return (character :: characters, after)
        | _ => none
      else do
        let (characters, after) ← stringBody? rest
        return (Char.ofNat unit :: characters, after)
  | '\\' :: letter :: rest => do
    let character ← unescape? letter
    let (characters, after) ← stringBody? rest
    return (character :: characters, after)
  | c :: rest =>
    if c = '\\' ∨ c.toNat < 0x20 then none
    else do
      let (characters, after) ← stringBody? rest
      return (c :: characters, after)

/-! ## Numbers -/

/-- The fraction of a numeral, if it has one: at least one digit behind a point. -/
def fraction? : List Char → Option (List Char × List Char)
  | '.' :: rest =>
    let (digits, after) := digitRun rest
    if digits.isEmpty then none else some (digits, after)
  | text => some ([], text)

/-- The exponent of a numeral, if it has one: a letter, a sign if need be, and digits. -/
def exponent? : List Char → Option (Option Int × List Char)
  | c :: rest =>
    if c = 'e' ∨ c = 'E' then
      let (sign, unsigned) := match rest with
        | '+' :: rest => ((1 : Int), rest)
        | '-' :: rest => ((-1 : Int), rest)
        | rest => ((1 : Int), rest)
      let (digits, after) := digitRun unsigned
      if digits.isEmpty then none
      else (Text.decimalValue? digits).map fun value => (some (sign * value), after)
    else some (none, c :: rest)
  | [] => some (none, [])

/-- The number at the front of a text, and what follows it. -/
def number? (text : List Char) : Option (Json × List Char) :=
  let (negative, unsigned) := match text with
    | '-' :: rest => (true, rest)
    | rest => (false, rest)
  let (whole, afterWhole) := digitRun unsigned
  if whole.isEmpty ∨ (whole.head? = some '0' ∧ whole.length ≠ 1) then none
  else do
    let (fraction, afterFraction) ← fraction? afterWhole
    let (exponent, after) ← exponent? afterFraction
    let value ← Text.decimalValue? (whole ++ fraction)
    if fraction.isEmpty ∧ exponent.isNone ∧ ¬ (negative ∧ value = 0) then
      return (.integer (if negative then -(value : Int) else value), after)
    else
      return (.number (nearestDecimal negative value (exponent.getD 0 - fraction.length)), after)

/-! ## Values -/

mutual

/-- The value at the front of a text, and what follows it; at most `fuel` parts are read. -/
def value? : (fuel : Nat) → List Char → Option (Json × List Char)
  | 0, _ => none
  | fuel + 1, text =>
    match text with
    | 'n' :: 'u' :: 'l' :: 'l' :: rest => some (.null, rest)
    | 't' :: 'r' :: 'u' :: 'e' :: rest => some (.bool true, rest)
    | 'f' :: 'a' :: 'l' :: 's' :: 'e' :: rest => some (.bool false, rest)
    | '\"' :: rest => (stringBody? rest).map fun (characters, after) => (.string (String.ofList characters), after)
    | '[' :: rest =>
      match skipBlanks rest with
      | ']' :: after => some (.array [], after)
      | rest => (items? fuel rest).map fun (items, after) => (.array items, after)
    | '\x7b' :: rest =>
      match skipBlanks rest with
      | '\x7d' :: after => some (.object [], after)
      | rest => (members? fuel rest).map fun (members, after) => (.object members, after)
    | text => number? text

/-- The items of an array from the next one on, and what follows the closing bracket. -/
def items? : (fuel : Nat) → List Char → Option (List Json × List Char)
  | 0, _ => none
  | fuel + 1, text => do
    let (item, rest) ← value? fuel text
    match skipBlanks rest with
    | ',' :: rest =>
      let (items, after) ← items? fuel (skipBlanks rest)
      return (item :: items, after)
    | ']' :: after => return ([item], after)
    | _ => none

/-- The members of an object from the next one on, and what follows the closing brace. -/
def members? : (fuel : Nat) → List Char → Option (List (String × Json) × List Char)
  | 0, _ => none
  | fuel + 1, text =>
    match text with
    | '\"' :: rest => do
      let (name, rest) ← stringBody? rest
      match skipBlanks rest with
      | ':' :: rest =>
        let (value, rest) ← value? fuel (skipBlanks rest)
        let member := (String.ofList name, value)
        match skipBlanks rest with
        | ',' :: rest =>
          let (members, after) ← members? fuel (skipBlanks rest)
          return (member :: members, after)
        | '\x7d' :: after => return ([member], after)
        | _ => none
      | _ => none
    | _ => none

end

/-- The value that a whole text denotes. A text has no more parts than characters. -/
def parse? (text : String) : Option Json :=
  match value? (text.toList.length + 1) (skipBlanks text.toList) with
  | some (value, rest) => if (skipBlanks rest).isEmpty then some value else none
  | none => none

end Telemetry.Json
