import Telemetry.Decimal.Shortest
import Telemetry.Proofs.Binary.Arithmetic

/-!
# What is rounded to a number

The interval around a number holds what is rounded to it (`Interval.nearest_of_contains`). In the unit of the
number its points are at most half away from the significand, and exactly half only from an even one, so the
significand is found again (`nearestEven_eq`). One point needs care: below the least significand of an
exponent the unit is half as large. The interval is narrower there, and what lies in it is rounded to twice
the significand of that smaller unit, which is carried into the same pattern.
-/

namespace Telemetry

/-! ## Rounding to a given pattern -/

section Quotient

variable {num den n : Nat}

theorem nearestEven_of_le (pos : 0 < den) (low : 2 * (n * den) ≤ 2 * num + den)
    (high : 2 * num ≤ 2 * (n * den) + den) (down : 2 * (n * den) = 2 * num + den → n % 2 = 0)
    (up : 2 * num = 2 * (n * den) + den → n % 2 = 0) : nearestEven num den = n := by
  have whole : num / den * den + num % den = num := Nat.div_add_mod' num den
  have rest : num % den < den := Nat.mod_lt num pos
  -- Only the two whole numbers around the quotient are near enough.
  have least : num / den ≤ n := by
    by_contra less
    have steps := Nat.mul_le_mul_right den (show n + 1 ≤ num / den by omega)
    rw [Nat.add_mul] at steps
    omega
  have most : n ≤ num / den + 1 := by
    by_contra more
    have steps := Nat.mul_le_mul_right den (show num / den + 2 ≤ n by omega)
    rw [Nat.add_mul] at steps
    omega
  unfold nearestEven
  dsimp only
  rcases Nat.eq_or_lt_of_le least with same | less
  · rw [← same] at high up ⊢
    split
    · rfl
    · rw [if_neg (by omega), if_pos (up (by omega))]
  · obtain rfl : n = num / den + 1 := by omega
    rw [Nat.add_mul] at low down
    rw [if_neg (by omega)]
    split
    · rfl
    · have even := down (by omega)
      rw [if_neg (by omega)]

/-- A quotient that is half away from a whole number at most is rounded to it, from exactly half only if it is
even. -/
theorem nearestEven_eq (pos : 0 < den) (near : |(num : ℚ) / den - n| ≤ 1 / 2)
    (tie : |(num : ℚ) / den - n| = 1 / 2 → n % 2 = 0) : nearestEven num den = n := by
  have some : (0 : ℚ) < den := Nat.cast_pos.mpr pos
  have scaled : |(num : ℚ) / den - n| = |(num : ℚ) - n * den| / den := by
    rw [div_sub' some.ne', abs_div, abs_of_pos some, mul_comm (den : ℚ)]
  rw [scaled, div_le_iff₀ some, abs_le] at near
  rw [scaled, div_eq_iff some.ne'] at tie
  refine nearestEven_of_le pos ?_ ?_ (fun exact => tie ?_) fun exact => tie ?_
  · have low : (2 : ℚ) * (n * den) ≤ 2 * num + den := by linarith
    exact_mod_cast low
  · have high : (2 : ℚ) * num ≤ 2 * (n * den) + den := by linarith
    exact_mod_cast high
  · have half : (2 : ℚ) * (n * den) = 2 * num + den := by exact_mod_cast exact
    rw [abs_of_nonpos (by linarith)]
    linarith
  · have half : (2 : ℚ) * num = 2 * (n * den) + den := by exact_mod_cast exact
    rw [abs_of_nonneg (by linarith)]
    linarith

end Quotient

namespace BinaryFormat

variable {f : BinaryFormat} {num den : Nat} {e : ℤ}

/-- The unit of a quotient is the one in which it has the bits of a significand, or the least. -/
theorem unit_eq (numPos : 0 < num) (denPos : 0 < den) (least : f.leastExponent ≤ e)
    (below : (num : ℚ) / den < 2 ^ (f.fractionBits + 1 + e))
    (reached : (2 : ℚ) ^ (f.fractionBits + e) ≤ num / den ∨ e = f.leastExponent) : f.unit num den = e := by
  have upper := floorLog2_lt numPos denPos below
  unfold unit
  rcases reached with above | rfl
  · have lower : f.fractionBits + e < floorLog2 num den + 1 :=
      (zpow_lt_zpow_iff_right₀ (by norm_num : (1 : ℚ) < 2)).mp
        (above.trans_lt (floorLog2_spec numPos denPos).2)
    omega
  · omega

/-- In its unit a quotient is rounded to the significand that is half a unit away at most, or to the even one
of two such. -/
theorem significand_eq (denPos : 0 < den) {n : Nat}
    (near : |(num : ℚ) / den - n * 2 ^ f.unit num den| ≤ 2 ^ f.unit num den / 2)
    (tie : |(num : ℚ) / den - n * 2 ^ f.unit num den| = 2 ^ f.unit num den / 2 → n % 2 = 0) :
    f.significand num den = n := by
  have step : (0 : ℚ) < 2 ^ f.unit num den := by positivity
  have scaled : |(num : ℚ) / den - n * 2 ^ f.unit num den| =
      |((num * 2 ^ (-f.unit num den).toNat : Nat) : ℚ) / (den * 2 ^ (f.unit num den).toNat : Nat) - n| *
        2 ^ f.unit num den := by
    conv_lhs => rw [← f.quotient_in_unit num den, ← sub_mul, abs_mul, abs_of_pos step]
  rw [scaled] at near tie
  refine nearestEven_eq (Nat.mul_pos denPos (Nat.two_pow_pos _)) ?_ fun half => tie ?_
  · exact le_of_mul_le_mul_right (near.trans_eq (one_div_mul_eq_div _ _).symm) step
  · rw [half, one_div_mul_eq_div]

/-- **Where a quotient is rounded to.** Unit and significand make up the pattern. -/
theorem nearest_eq_pattern (numPos : 0 < num) (denPos : 0 < den) {n : Nat} (least : f.leastExponent ≤ e)
    (below : (num : ℚ) / den < 2 ^ (f.fractionBits + 1 + e))
    (reached : (2 : ℚ) ^ (f.fractionBits + e) ≤ num / den ∨ e = f.leastExponent)
    (near : |(num : ℚ) / den - n * 2 ^ e| ≤ 2 ^ e / 2)
    (tie : |(num : ℚ) / den - n * 2 ^ e| = 2 ^ e / 2 → n % 2 = 0)
    (finite : (e - f.leastExponent).toNat * 2 ^ f.fractionBits + n ≤ f.infinityBits) :
    f.nearest num den = (e - f.leastExponent).toNat * 2 ^ f.fractionBits + n := by
  have unit := unit_eq numPos denPos least below reached
  rw [← unit] at near tie
  rw [f.nearest_eq numPos, significand_eq denPos near tie, unit, Nat.min_eq_right finite]

end BinaryFormat

/-! ## The interval -/

namespace Interval

variable {m : Nat} {e : ℤ} {x : ℚ}

theorem low_around (pos : 0 < m) (e : ℤ) :
    (around m e).low = (4 * m - if m = 2 ^ 52 ∧ -1074 < e then 1 else 2) * 2 ^ (e - 2) := by
  show Datum.magnitude (4 * m - if m = 2 ^ 52 ∧ -1074 < e then 1 else 2) (e - 2) = _
  rw [Datum.magnitude_eq]
  congr 1
  split
  · rw [Nat.cast_sub (by omega)]
    push_cast
    rfl
  · rw [Nat.cast_sub (by omega)]
    push_cast
    rfl

theorem high_around (m : Nat) (e : ℤ) : (around m e).high = (4 * m + 2) * 2 ^ (e - 2) := by
  show Datum.magnitude (4 * m + 2) (e - 2) = _
  rw [Datum.magnitude_eq]
  push_cast
  rfl

/-- The bounds of the points of an interval, in quarters of the unit. -/
theorem bounds_of_contains (pos : 0 < m) (inside : (around m e).contains x = true) :
    let low : ℚ := (4 * m - if m = 2 ^ 52 ∧ -1074 < e then 1 else 2) * 2 ^ (e - 2)
    let high : ℚ := (4 * m + 2) * 2 ^ (e - 2)
    low ≤ x ∧ x ≤ high ∧ (m % 2 = 1 → low < x ∧ x < high) := by
  intro low high
  unfold contains at inside
  rw [low_around pos, high_around] at inside
  split at inside
  · rename_i even
    have even : m % 2 = 0 := of_decide_eq_true even
    rw [Bool.and_eq_true, decide_eq_true_iff, decide_eq_true_iff] at inside
    exact ⟨inside.1, inside.2, fun odd => by omega⟩
  · rw [Bool.and_eq_true, decide_eq_true_iff, decide_eq_true_iff] at inside
    exact ⟨inside.1.le, inside.2.le, fun _ => inside⟩

theorem zpow_eq_quarters (e : ℤ) : (2 : ℚ) ^ e = 4 * 2 ^ (e - 2) := by
  rw [show e = (2 : Nat) + (e - 2) by push_cast; ring, two_zpow_add]
  norm_num

theorem half_eq_quarters (e : ℤ) : (2 : ℚ) ^ (e - 1) = 2 * 2 ^ (e - 2) := by
  rw [show e - 1 = 1 + (e - 2) by ring, zpow_add₀ two_ne_zero, zpow_one]

/-- The number itself lies in the interval around it. -/
theorem contains_magnitude (pos : 0 < m) (e : ℤ) : (around m e).contains (Datum.magnitude m e) = true := by
  have quarter : (0 : ℚ) < 2 ^ (e - 2) := by positivity
  have low : (around m e).low < Datum.magnitude m e := by
    rw [low_around pos, Datum.magnitude_eq, zpow_eq_quarters e]
    split <;> linarith
  have high : Datum.magnitude m e < (around m e).high := by
    rw [high_around, Datum.magnitude_eq, zpow_eq_quarters e]
    linarith
  unfold contains
  split
  · exact Bool.and_eq_true_iff.mpr ⟨decide_eq_true low.le, decide_eq_true high.le⟩
  · exact Bool.and_eq_true_iff.mpr ⟨decide_eq_true low, decide_eq_true high⟩

theorem pos_of_contains (pos : 0 < m) (inside : (around m e).contains x = true) : 0 < x := by
  obtain ⟨low, -, -⟩ := bounds_of_contains pos inside
  have one : (1 : ℚ) ≤ m := by exact_mod_cast pos
  have step : (0 : ℚ) < 2 ^ (e - 2) := by positivity
  refine lt_of_lt_of_le (mul_pos ?_ step) low
  split <;> linarith

section Nearest

variable {num den : Nat} (numPos : 0 < num) (denPos : 0 < den)

include numPos denPos

/-- A point that has the unit of the number is at most half of it away from the number. -/
theorem nearest_in_unit (pos : 0 < m) (short : m < 2 ^ 53) (least : -1074 ≤ e)
    (reached : (2 : ℚ) ^ ((52 : Nat) + e) ≤ num / den ∨ e = -1074)
    (finite : (e - -1074).toNat * 2 ^ 52 + m ≤ BinaryFormat.double.infinityBits)
    (inside : (around m e).contains (num / den) = true) :
    BinaryFormat.double.nearest num den = (e - -1074).toNat * 2 ^ 52 + m := by
  have start : BinaryFormat.double.leastExponent = -1074 := by decide
  have quarter : (0 : ℚ) < 2 ^ (e - 2) := by positivity
  obtain ⟨low, high, odd⟩ := bounds_of_contains pos inside
  refine BinaryFormat.nearest_eq_pattern numPos denPos (start ▸ least) ?_ (start ▸ reached) ?_ ?_ finite
  · have most : (m : ℚ) + 1 ≤ 2 ^ 53 := by exact_mod_cast short
    have scaled := mul_le_mul_of_nonneg_right most quarter.le
    show (num : ℚ) / den < 2 ^ ((52 : Nat) + 1 + e)
    rw [show ((52 : Nat) + 1 + e : ℤ) = (53 : Nat) + e by push_cast; ring, two_zpow_add, zpow_eq_quarters e]
    push_cast
    linarith
  · rw [abs_le, zpow_eq_quarters e]
    split at low <;> constructor <;> linarith
  · intro tie
    by_contra uneven
    obtain ⟨above, beneath⟩ := odd (by omega)
    rw [if_neg (fun narrow => by omega)] at above
    rw [zpow_eq_quarters e, abs_eq (by positivity)] at tie
    rcases tie with more | less <;> linarith

/-- Below the least significand of an exponent the unit is half as large: what lies there in the interval is
rounded to twice the significand, which is the same pattern. -/
theorem nearest_below_unit (least : -1074 < e)
    (finite : (e - -1074).toNat * 2 ^ 52 + 2 ^ 52 ≤ BinaryFormat.double.infinityBits)
    (low : (4 * 2 ^ 52 - 1) * (2 : ℚ) ^ (e - 2) ≤ num / den) (small : (num : ℚ) / den < 2 ^ ((52 : Nat) + e)) :
    BinaryFormat.double.nearest num den = (e - -1074).toNat * 2 ^ 52 + 2 ^ 52 := by
  have start : BinaryFormat.double.leastExponent = -1074 := by decide
  have quarter : (0 : ℚ) < 2 ^ (e - 2) := by positivity
  have carried : (e - 1 - -1074).toNat * 2 ^ 52 + 2 ^ 53 = (e - -1074).toNat * 2 ^ 52 + 2 ^ 52 := by
    rw [show (e - -1074).toNat = (e - 1 - -1074).toNat + 1 by omega]
    ring
  rw [← carried] at finite ⊢
  refine BinaryFormat.nearest_eq_pattern numPos denPos (start ▸ (by omega)) ?_ (.inl ?_) ?_ (fun _ => rfl) finite
  · show (num : ℚ) / den < 2 ^ ((52 : Nat) + 1 + (e - 1))
    rwa [show ((52 : Nat) + 1 + (e - 1) : ℤ) = (52 : Nat) + e by ring]
  · show (2 : ℚ) ^ ((52 : Nat) + (e - 1)) ≤ num / den
    rw [two_zpow_add, half_eq_quarters]
    push_cast
    linarith
  · rw [two_zpow_add, zpow_eq_quarters e] at small
    push_cast at small
    rw [abs_le, half_eq_quarters]
    push_cast
    constructor <;> linarith

/-- **What lies in the interval around a number is rounded to it.** -/
theorem nearest_of_contains (pos : 0 < m) (short : m < 2 ^ 53) (least : -1074 ≤ e)
    (hidden : 2 ^ 52 ≤ m ∨ e = -1074)
    (finite : (e - -1074).toNat * 2 ^ 52 + m < BinaryFormat.double.infinityBits)
    (inside : (around m e).contains (num / den) = true) :
    BinaryFormat.double.nearest num den = (e - -1074).toNat * 2 ^ 52 + m := by
  by_cases reached : (2 : ℚ) ^ ((52 : Nat) + e) ≤ num / den ∨ e = -1074
  · exact nearest_in_unit numPos denPos pos short least reached finite.le inside
  · obtain ⟨small, above⟩ := not_or.mp reached
    rw [not_le] at small
    obtain ⟨low, -, -⟩ := bounds_of_contains pos inside
    have quarter : (0 : ℚ) < 2 ^ (e - 2) := by positivity
    -- Only the interval around the least significand reaches below what has its unit.
    obtain rfl : m = 2 ^ 52 := by
      by_contra other
      have more : (2 ^ 52 : ℚ) + 1 ≤ m := by
        exact_mod_cast Nat.lt_of_le_of_ne (hidden.resolve_right above) (Ne.symm other)
      have scaled := mul_le_mul_of_nonneg_right more quarter.le
      rw [two_zpow_add, zpow_eq_quarters e] at small
      push_cast at small
      split at low <;> linarith
    rw [if_pos ⟨rfl, by omega⟩] at low
    push_cast at low
    exact nearest_below_unit numPos denPos (by omega) finite.le low small

end Nearest

end Interval

/-! ## Numbers of 64 bits -/

namespace Binary64

variable {x : Binary64} {negative : Bool} {m : Nat} {e : ℤ}

/-- A number is its sign and the magnitude of its pattern. -/
theorem bits_of_datum (h : x.datum = .finite negative m e) :
    x.bits.toNat = (if negative then BinaryFormat.double.signBit else 0) + ((e - -1074).toNat * 2 ^ 52 + m) := by
  have start : BinaryFormat.double.leastExponent = -1074 := by decide
  have sign : BinaryFormat.double.signBit = 2 ^ 63 := by decide
  have narrow := x.bits.toNat_lt
  obtain ⟨rfl, -, -, -, magnitude, -⟩ := BinaryFormat.fields_of_decode h
  rw [start] at magnitude
  have magnitude : x.bits.toNat % BinaryFormat.double.signBit = (e - -1074).toNat * 2 ^ 52 + m := magnitude
  rw [← magnitude, sign]
  by_cases signed : 2 ^ 63 ≤ x.bits.toNat
  · rw [decide_eq_true signed, if_pos rfl]
    omega
  · rw [decide_eq_false signed, if_neg Bool.false_ne_true]
    omega

theorem eq_zero_of_datum (h : x.datum = .finite negative 0 e) : x = zero negative := by
  have bits := bits_of_datum h
  obtain ⟨-, -, -, hidden, -⟩ := BinaryFormat.fields_of_decode h
  have start : BinaryFormat.double.leastExponent = -1074 := by decide
  obtain rfl : e = -1074 := start ▸ hidden.resolve_left (by decide)
  obtain ⟨pattern⟩ := x
  cases negative with
  | false => exact congrArg Binary64.mk (UInt64.toNat_inj.mp bits)
  | true => exact congrArg Binary64.mk (UInt64.toNat_inj.mp bits)

/-- **A number is found again from any rational in its interval**, given its sign. -/
theorem round_of_contains (h : x.datum = .finite negative m e) (pos : 0 < m) {q : ℚ}
    (inside : (Interval.around m e).contains q = true) : round negative q = x := by
  have start : BinaryFormat.double.leastExponent = -1074 := by decide
  have positive := Interval.pos_of_contains pos inside
  have quotient : q = (q.num.natAbs : ℚ) / q.den := by
    rw [← abs_eq_natAbs_div, abs_of_pos positive]
  have numPos : 0 < q.num.natAbs := Int.natAbs_pos.mpr (Rat.num_ne_zero.mpr positive.ne')
  obtain ⟨-, short, least, hidden, spelled, finite⟩ := BinaryFormat.fields_of_decode h
  rw [spelled] at finite
  rw [start] at least hidden finite
  rw [quotient] at inside
  have nearest := Interval.nearest_of_contains numPos q.den_pos pos short least hidden finite inside
  have rounded : BinaryFormat.double.ofRat negative q = x.bits.toNat := by
    rw [BinaryFormat.ofRat, nearest, bits_of_datum h]
  rw [round, rounded, UInt64.ofNat_toNat]

end Binary64

end Telemetry
