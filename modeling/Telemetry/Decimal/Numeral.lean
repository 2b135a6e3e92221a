import Telemetry.Binary.Binary64
import Telemetry.Text.Digits

/-!
# Reading numbers

Numbers given as text: small naturals, integers, and real numerals with an optional sign, point and
exponent. A real numeral denotes an exact decimal, which is rounded once.
-/

namespace Telemetry

/-! ## Integers -/

/-- Why a text is no natural of the expected size. -/
inductive NaturalError where
  | empty
  | invalidDigit
  | tooLarge
deriving DecidableEq, Repr

namespace NaturalError

def message : NaturalError → String
  | .empty => "cannot parse integer from empty string"
  | .invalidDigit => "invalid digit found in string"
  | .tooLarge => "number too large to fit in target type"

end NaturalError

/--
Continue a natural of at most `limit` with more digits. The first character that is no digit or
makes the number too large decides the error.
-/
def naturalFrom (limit : Nat) : (value : Nat) → List Char → Except NaturalError Nat
  | value, [] => .ok value
  | value, c :: rest =>
    match Text.digit? c with
    | none => .error .invalidDigit
    | some digit =>
      if limit < 10 * value + digit then .error .tooLarge
      else naturalFrom limit (10 * value + digit) rest

/-- A natural of at most `limit`, which a plus sign may precede. -/
def parseNatural (limit : Nat) : List Char → Except NaturalError Nat
  | [] => .error .empty
  | ['+'] => .error .invalidDigit
  | '+' :: digits => naturalFrom limit 0 digits
  | digits => naturalFrom limit 0 digits

/-- An integer with an optional sign, if the text is one. -/
def parseInteger? (text : List Char) : Option Int :=
  match text with
  | '-' :: digits => if digits.isEmpty then none else (Text.decimalValue? digits).map fun n => -(n : Int)
  | '+' :: digits => if digits.isEmpty then none else (Text.decimalValue? digits).map Int.ofNat
  | digits => if digits.isEmpty then none else (Text.decimalValue? digits).map Int.ofNat

/-! ## Real numerals -/

/-- Why a text is no real numeral. -/
inductive RealError where
  | empty
  | invalid
deriving DecidableEq, Repr

namespace RealError

def message : RealError → String
  | .empty => "cannot parse float from empty string"
  | .invalid => "invalid float literal"

end RealError

/-- The leading decimal digits of a text, and what follows them. -/
def digitRun (text : List Char) : List Char × List Char :=
  (text.takeWhile Char.isDigit, text.dropWhile Char.isDigit)

/--
The number nearest to `digits * 10^exponent`. A value of `10^310` and more is infinite and one below
`10^-330` vanishes, which is settled by counting digits, so no power of ten grows out of hand.
-/
def nearestDecimal (negative : Bool) (digits : Nat) (exponent : Int) : Binary64 :=
  let leading := exponent + ((Nat.toDigits 10 digits).length : Int)
  if digits = 0 ∨ leading < -330 then Binary64.zero negative
  else if 310 < leading then Binary64.infinity negative
  else Binary64.round negative (mkRat (digits * Nat.pow 10 exponent.toNat) (Nat.pow 10 (-exponent).toNat))

/-- The exponent part of a numeral: nothing, or a letter and a signed run of digits. -/
def parseExponent? : List Char → Option Int
  | [] => some 0
  | c :: rest =>
    if c = 'e' ∨ c = 'E' then parseInteger? rest else none

/-- An unsigned numeral: digits, a point and digits, and an exponent, with at least one digit. -/
def parseUnsigned? (negative : Bool) (text : List Char) : Option Binary64 :=
  let (whole, afterWhole) := digitRun text
  let (fraction, afterFraction) := match afterWhole with
    | '.' :: rest => digitRun rest
    | rest => ([], rest)
  let digits := whole ++ fraction
  if digits.isEmpty then none
  else do
    let value ← Text.decimalValue? digits
    let exponent ← parseExponent? afterFraction
    return nearestDecimal negative value (exponent - fraction.length)

/-- The words for the special values, in any letter case. -/
def parseSpecial? (negative : Bool) (text : List Char) : Option Binary64 :=
  let word := String.ofList (text.map Char.toLower)
  if word = "nan" then some Binary64.nan
  else if word = "inf" ∨ word = "infinity" then some (Binary64.infinity negative)
  else none

/-- A real numeral with an optional sign. -/
def parseReal (text : List Char) : Except RealError Binary64 :=
  if text.isEmpty then .error .empty
  else
    let (negative, rest) := match text with
      | '-' :: rest => (true, rest)
      | '+' :: rest => (false, rest)
      | rest => (false, rest)
    match parseUnsigned? negative rest <|> parseSpecial? negative rest with
    | some x => .ok x
    | none => .error .invalid

end Telemetry
