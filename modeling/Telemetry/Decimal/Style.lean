import Telemetry.Decimal.Shortest

/-!
# Written numbers

How a number is laid out as text. The digits are always the shortest that identify the number; a
`NumberStyle` decides when they are written positionally and whether a whole number keeps a point.
Two styles are in use: `NumberStyle.prose` in messages and `NumberStyle.exchange` in data for other
programs.
-/

namespace Telemetry

/-- The decisions behind a written number. -/
structure NumberStyle where
  /-- Which of two equally near decimals is written. -/
  tie : Tie
  /-- The exponents of the leading digit that are written positionally, if not all of them. -/
  positional : Option (Int × Int)
  /-- A whole number ends in a point and a zero. -/
  pointZero : Bool

namespace NumberStyle

/-- Numbers in messages: never an exponent, and no point in a whole number. -/
def prose : NumberStyle where
  tie := .up
  positional := none
  pointZero := false

/-- Numbers in data: always a point or an exponent, positional from `10^-5` to below `10^16`. -/
def exchange : NumberStyle where
  tie := .toEven
  positional := some (-5, 16)
  pointZero := true

/-- The digits with the point where the exponent puts it. -/
def positionalText (pointZero : Bool) (digits : List Char) (exponent : Int) : List Char :=
  if 0 ≤ exponent then
    digits ++ List.replicate exponent.toNat '0' ++ (if pointZero then ['.', '0'] else [])
  else
    let places := (-exponent).toNat
    if places < digits.length then
      digits.take (digits.length - places) ++ ['.'] ++ digits.drop (digits.length - places)
    else ['0', '.'] ++ List.replicate (places - digits.length) '0' ++ digits

/-- One digit, the others after a point, and the exponent with its sign. -/
def scientificText (digits : List Char) (leading : Int) : List Char :=
  let tail := digits.drop 1
  digits.take 1 ++ (if tail.isEmpty then [] else '.' :: tail) ++ ['e'] ++
    [if leading < 0 then '-' else '+'] ++ Nat.toDigits 10 leading.natAbs

/-- A decimal laid out in a style. -/
def layout (style : NumberStyle) (d : Decimal) : List Char :=
  let digits := Nat.toDigits 10 d.digits
  let leading := d.exponent + (digits.length : Int) - 1
  let plain := match style.positional with
    | none => true
    | some (least, bound) => least ≤ leading && leading < bound
  if plain then positionalText style.pointZero digits d.exponent
  else scientificText digits leading

/-- A number as text. -/
def render (style : NumberStyle) (x : Binary64) : String :=
  match x.datum with
  | .nan => "NaN"
  | .infinity negative => if negative then "-inf" else "inf"
  | .finite negative significand exponent =>
    let text :=
      if significand = 0 then positionalText style.pointZero ['0'] 0
      else style.layout (Decimal.shortest style.tie significand exponent)
    String.ofList ((if negative then ['-'] else []) ++ text)

end NumberStyle

end Telemetry
