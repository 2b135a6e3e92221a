import Telemetry.Point.Scalar

/-!
# Values

What a field holds: a number, a scalar with its kind, or a text.
-/

namespace Telemetry

/-- What a field holds. -/
inductive Value where
  | number (x : Binary64)
  | scalar (s : Scalar)
  | text (t : String)
deriving DecidableEq, Repr

namespace Value

/-- The value as a number; a text counts its characters. -/
def toBinary64 : Value → Binary64
  | .number x => x
  | .scalar s => s.toBinary64
  | .text t => Binary64.ofNat t.length

def sort : Value → String
  | .number _ => "number"
  | .scalar _ => "scalar"
  | .text _ => "text"

end Value

end Telemetry
