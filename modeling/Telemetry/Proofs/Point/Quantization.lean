import Telemetry.Point.Registry
import Telemetry.Proofs.Binary.Arithmetic

/-!
# How far steps are from values

A range whose bounds are whole numbers and whose steps are not too many and not too fine is a grid
(`FixedPoint.IsGrid`); all ranges of the registry are (`Registry.points_isGrid`). On a grid every rounding
of an intermediate result is far smaller than a step, even after scaling. So the steps of a value are half a
step away from it at most, but for those roundings (`IsGrid.quantize_spec`), and the value of some steps is
the number nearest to where they lead (`IsGrid.denotes_dequantize`). As that is much nearer than half a step, the
steps of the value are the same again (`IsGrid.quantize_dequantize`).
-/

namespace Telemetry

namespace Binary64

variable {x : Binary64} {p : ℚ}

/-- A whole number is cut off only where it leaves the naturals up to the limit. -/
theorem Denotes.toNatClamped {n : ℤ} (h : x.Denotes n) (limit : Nat) :
    x.toNatClamped limit = min limit n.toNat := by
  obtain ⟨m, e, datum, -⟩ := h.datum
  have whole : Rat.floor (n : ℚ) = n := Rat.floor_intCast n
  unfold Binary64.toNatClamped
  rw [datum, h.toRat, whole]

theorem lt_eq_of_denotes {y : Binary64} {q : ℚ} (hx : x.Denotes p) (hy : y.Denotes q) :
    x.lt y = decide (p < q) := by
  obtain ⟨m, e, first, -⟩ := hx.datum
  obtain ⟨n, d, second, -⟩ := hy.datum
  unfold lt
  rw [first, second, hx.toRat, hy.toRat]

/-- A rational of at most 22 bits loses little. -/
theorem abs_rounded_sub_le_tiny {x : ℚ} (small : |x| < 2 ^ 22) : |rounded x - x| ≤ 1 / 2 ^ 32 := by
  have near := abs_rounded_sub_le (k := 22) (by exact_mod_cast small) (by norm_num) (by norm_num)
  norm_num at near ⊢
  exact near

end Binary64

namespace FixedPoint

open Binary64

/-- The value of a range that is nearest to a number, infinities included; the lower bound for what is no
number. -/
def clamped (r : FixedPoint) (v : Binary64) : ℚ :=
  match v.datum with
  | .nan => r.low.toRat
  | .infinity negative => if negative then r.low.toRat else r.high.toRat
  | .finite .. => max r.low.toRat (min v.toRat r.high.toRat)

/-- The steps of a range in one unit, as a rational. -/
def perUnit (r : FixedPoint) : ℚ :=
  10 ^ r.decimals.toNat

/-- Bounds and scale of a range are numbers, the bounds whole ones, and there are at most `2^20` steps from
zero to a bound, of at least a thousandth each. All steps fit the width. -/
structure IsGrid (r : FixedPoint) : Prop where
  low : r.low.isFinite = true
  high : r.high.isFinite = true
  scale : r.scale.isFinite = true ∧ r.scale.toRat = r.perUnit
  ordered : r.low.toRat ≤ r.high.toRat
  whole : r.low.toRat.den = 1 ∧ r.high.toRat.den = 1
  decimals : r.decimals.toNat ≤ 3
  reach : -2 ^ 20 ≤ r.low.toRat * r.perUnit ∧ r.high.toRat * r.perUnit ≤ 2 ^ 20
  fits : (r.high.toRat - r.low.toRat) * r.perUnit ≤ limit r.width

end FixedPoint

/-- The range of a point that has one. -/
def Descriptor.range? (d : Descriptor) : Option FixedPoint :=
  match d.encoding with
  | .fixedPoint r => some r
  | _ => none

theorem Registry.points_isGrid {point : Descriptor} (registered : point ∈ points) {r : FixedPoint}
    (range : point.encoding = .fixedPoint r) : r.IsGrid := by
  have all : ∀ d ∈ points, ∀ r ∈ d.range?,
      r.low.isFinite = true ∧ r.high.isFinite = true ∧
        (r.scale.isFinite = true ∧ r.scale.toRat = r.perUnit) ∧ r.low.toRat ≤ r.high.toRat ∧
        (r.low.toRat.den = 1 ∧ r.high.toRat.den = 1) ∧ r.decimals.toNat ≤ 3 ∧
        (-2 ^ 20 ≤ r.low.toRat * r.perUnit ∧ r.high.toRat * r.perUnit ≤ 2 ^ 20) ∧
        (r.high.toRat - r.low.toRat) * r.perUnit ≤ FixedPoint.limit r.width := by
    decide +kernel
  obtain ⟨low, high, scale, ordered, whole, decimals, reach, fits⟩ :=
    all point registered r (by rw [Descriptor.range?, range]; rfl)
  exact ⟨low, high, scale, ordered, whole, decimals, reach, fits⟩

/-- No steps lead to the lower bound itself. -/
theorem Registry.dequantize_zero {point : Descriptor} (registered : point ∈ points) {r : FixedPoint}
    (range : point.encoding = .fixedPoint r) : r.dequantize 0 = r.low := by
  have all : ∀ d ∈ points, ∀ r ∈ d.range?, r.dequantize 0 = r.low := by decide +kernel
  exact all point registered r (by rw [Descriptor.range?, range]; rfl)

/-- The steps of a range take 20 bits at most. -/
theorem Registry.width_le {point : Descriptor} (registered : point ∈ points) {r : FixedPoint}
    (range : point.encoding = .fixedPoint r) : r.width ≤ 20 := by
  have all : ∀ d ∈ points, ∀ r ∈ d.range?, r.width ≤ 20 := by decide +kernel
  exact all point registered r (by rw [Descriptor.range?, range]; rfl)

namespace FixedPoint

open Binary64

/-! ## Errors and small numbers -/

/-- What is near a small number is small. -/
theorem abs_lt_of_near {a b lost size limit : ℚ} (near : |a - b| ≤ lost) (small : |b| ≤ size)
    (room : lost + size < limit) : |a| < limit :=
  calc |a| = |a - b + b| := by rw [sub_add_cancel]
    _ ≤ |a - b| + |b| := abs_add_le _ _
    _ ≤ lost + size := add_le_add near small
    _ < limit := room

/-- Whole numbers less than one apart are the same. -/
theorem eq_of_abs_sub_lt_one {m n : ℤ} (apart : |(m : ℚ) - n| < 1) : m = n := by
  have : |m - n| < 1 := by exact_mod_cast apart
  exact sub_eq_zero.mp (Int.abs_lt_one_iff.mp this)

theorem one_le_perUnit (r : FixedPoint) : 1 ≤ r.perUnit :=
  one_le_pow₀ (by norm_num)

theorem perUnit_pos (r : FixedPoint) : 0 < r.perUnit :=
  zero_lt_one.trans_le r.one_le_perUnit

/-- A value of the range is its own nearest. -/
theorem clamped_of_mem {r : FixedPoint} {v : Binary64} {p : ℚ} (h : v.Denotes p)
    (inside : r.low.toRat ≤ p ∧ p ≤ r.high.toRat) : r.clamped v = p := by
  obtain ⟨m, e, datum, -⟩ := h.datum
  unfold clamped
  rw [datum, h.toRat]
  exact (congrArg _ (min_eq_left inside.2)).trans (max_eq_right inside.1)

namespace IsGrid

variable {r : FixedPoint}

theorem perUnit_le (grid : r.IsGrid) : r.perUnit ≤ 1000 :=
  (pow_le_pow_right₀ (by norm_num) grid.decimals).trans (by norm_num)

/-- Scaling makes an error no more than a thousand times larger. -/
theorem abs_scaled_sub_le (grid : r.IsGrid) {a b lost : ℚ} (near : |a - b| ≤ lost) :
    |a * r.perUnit - b * r.perUnit| ≤ lost * 1000 := by
  rw [← sub_mul, abs_mul, abs_of_pos r.perUnit_pos]
  exact mul_le_mul near grid.perUnit_le r.perUnit_pos.le ((abs_nonneg _).trans near)

theorem denotes_low (grid : r.IsGrid) : r.low.Denotes r.low.toRat :=
  denotes_of_isFinite grid.low

theorem denotes_high (grid : r.IsGrid) : r.high.Denotes r.high.toRat :=
  denotes_of_isFinite grid.high

theorem denotes_scale (grid : r.IsGrid) : r.scale.Denotes r.perUnit :=
  ⟨grid.scale.1, grid.scale.2⟩

/-! ## From a value to its steps -/

/-- There is a whole number of steps from zero to the lower bound, and from there to the upper one. -/
theorem steps_whole (grid : r.IsGrid) :
    ∃ low span : ℤ, r.low.toRat * r.perUnit = low ∧ (r.high.toRat - r.low.toRat) * r.perUnit = span := by
  have low := (Rat.den_eq_one_iff _).mp grid.whole.1
  have high := (Rat.den_eq_one_iff _).mp grid.whole.2
  refine ⟨r.low.toRat.num * 10 ^ r.decimals.toNat,
    (r.high.toRat.num - r.low.toRat.num) * 10 ^ r.decimals.toNat, ?_, ?_⟩ <;>
    push_cast <;> simp only [low, high, perUnit]

/-- What is quantized is the nearest value of the range. -/
theorem denotes_inside (grid : r.IsGrid) (v : Binary64) :
    (if v.isNaN then r.low else v.clamp r.low r.high).Denotes (r.clamped v) ∧
      r.low.toRat ≤ r.clamped v ∧ r.clamped v ≤ r.high.toRat := by
  obtain ⟨m, e, lowDatum, -⟩ := grid.denotes_low.datum
  obtain ⟨n, d, highDatum, -⟩ := grid.denotes_high.datum
  have ordered := grid.ordered
  unfold clamped
  cases datum : v.datum with
  | nan =>
    rw [if_pos (by rw [isNaN, datum])]
    exact ⟨grid.denotes_low, le_rfl, ordered⟩
  | infinity negative =>
    rw [if_neg (by simp [isNaN, datum])]
    unfold clamp lt
    rw [datum, lowDatum, highDatum]
    cases negative with
    | true => exact ⟨grid.denotes_low, le_rfl, ordered⟩
    | false => exact ⟨grid.denotes_high, ordered, le_rfl⟩
  | finite negative significand exponent =>
    have denoted : v.Denotes v.toRat := denotes_of_isFinite (by rw [isFinite, datum])
    rw [if_neg (by simp [isNaN, datum])]
    unfold clamp
    rw [lt_eq_of_denotes denoted grid.denotes_low, lt_eq_of_denotes grid.denotes_high denoted]
    simp only [decide_eq_true_eq]
    by_cases below : v.toRat < r.low.toRat
    · rw [if_pos below, min_eq_left (below.le.trans ordered), max_eq_left below.le]
      exact ⟨grid.denotes_low, le_rfl, ordered⟩
    · rw [if_neg below]
      by_cases above : r.high.toRat < v.toRat
      · rw [if_pos above, min_eq_right above.le, max_eq_right ordered]
        exact ⟨grid.denotes_high, ordered, le_rfl⟩
      · rw [if_neg above, min_eq_left (not_lt.mp above), max_eq_right (not_lt.mp below)]
        exact ⟨denoted, not_lt.mp below, not_lt.mp above⟩

/-- Distances inside a range take no more steps than the range has. -/
theorem scaled_le (grid : r.IsGrid) {p : ℚ} (inside : r.low.toRat ≤ p ∧ p ≤ r.high.toRat) :
    0 ≤ (p - r.low.toRat) * r.perUnit ∧
      (p - r.low.toRat) * r.perUnit ≤ (r.high.toRat - r.low.toRat) * r.perUnit ∧
      (r.high.toRat - r.low.toRat) * r.perUnit ≤ 2 ^ 21 := by
  obtain ⟨low, high⟩ := grid.reach
  refine ⟨mul_nonneg (sub_nonneg.mpr inside.1) r.perUnit_pos.le, ?_, by linarith⟩
  exact mul_le_mul_of_nonneg_right (sub_le_sub_right inside.2 _) r.perUnit_pos.le

theorem abs_scaled_le (grid : r.IsGrid) {p : ℚ} (inside : r.low.toRat ≤ p ∧ p ≤ r.high.toRat) :
    |(p - r.low.toRat) * r.perUnit| ≤ 2 ^ 21 := by
  obtain ⟨nonneg, le, few⟩ := grid.scaled_le inside
  rw [abs_of_nonneg nonneg]
  exact le.trans few

/-- Subtracting the lower bound and scaling lose little of the distance in steps. -/
theorem denotes_scaled (grid : r.IsGrid) {x : Binary64} {p : ℚ} (h : x.Denotes p)
    (inside : r.low.toRat ≤ p ∧ p ≤ r.high.toRat) :
    ∃ b, ((x - r.low) * r.scale).Denotes b ∧ |b - (p - r.low.toRat) * r.perUnit| ≤ 1 / 2 ^ 20 := by
  have steps := grid.abs_scaled_le inside
  have near : |p - r.low.toRat| < 2 ^ 22 := by
    have : |p - r.low.toRat| ≤ |(p - r.low.toRat) * r.perUnit| := by
      rw [abs_mul, abs_of_pos r.perUnit_pos]
      exact le_mul_of_one_le_right (abs_nonneg _) r.one_le_perUnit
    exact (this.trans steps).trans_lt (by norm_num)
  have scaled := grid.abs_scaled_sub_le (abs_rounded_sub_le_tiny near)
  have product := abs_lt_of_near scaled steps (by norm_num : _ < (2 : ℚ) ^ 22)
  have lost' := abs_rounded_sub_le_tiny product
  have first := h.sub grid.denotes_low (two_pow_lt (by norm_num) near)
  refine ⟨_, first.mul grid.denotes_scale (two_pow_lt (by norm_num) product), ?_⟩
  refine (abs_sub_le _ _ _).trans ((add_le_add lost' scaled).trans ?_)
  norm_num

/-- **The steps of a value.** They are at most as many as the range has, and half a step away from the value,
or hardly more. -/
theorem quantize_spec (grid : r.IsGrid) (v : Binary64) :
    (r.quantize r.width v : ℚ) ≤ (r.high.toRat - r.low.toRat) * r.perUnit ∧
      |r.quantize r.width v - (r.clamped v - r.low.toRat) * r.perUnit| ≤ 1 / 2 + 1 / 2 ^ 20 := by
  obtain ⟨inside, bounds⟩ := grid.denotes_inside v
  obtain ⟨b, scaled, lost⟩ := grid.denotes_scaled inside bounds
  obtain ⟨nonneg, le, -⟩ := grid.scaled_le bounds
  obtain ⟨low, span, -, spanned⟩ := grid.steps_whole
  have small := abs_lt_of_near lost (grid.abs_scaled_le bounds) (by norm_num : _ < (2 : ℚ) ^ 52)
  obtain ⟨n, rounded, half⟩ := scaled.roundHalfAway small
  have near : |(n : ℚ) - (r.clamped v - r.low.toRat) * r.perUnit| ≤ 1 / 2 + 1 / 2 ^ 20 :=
    (abs_sub_le _ _ _).trans (add_le_add half lost)
  obtain ⟨down, up⟩ := abs_le.mp near
  -- The steps are whole, so they cannot be half a step beyond an end of the range.
  have natural : 0 ≤ n := by
    have : (-1 : ℚ) < n := by norm_num at down ⊢; linarith
    have : -1 < n := by exact_mod_cast this
    omega
  have fits : n ≤ span := by
    have : (n : ℚ) < span + 1 := by rw [← spanned]; norm_num at up ⊢; linarith
    have : n < span + 1 := by exact_mod_cast this
    omega
  have steps : (r.quantize r.width v : ℚ) = n := by
    have uncut : n.toNat ≤ limit r.width := by
      have reach := grid.fits
      rw [spanned] at reach
      have : span ≤ limit r.width := by exact_mod_cast reach
      omega
    have whole : r.quantize r.width v = n.toNat :=
      (rounded.toNatClamped (limit r.width)).trans (Nat.min_eq_right uncut)
    rw [whole, ← Int.cast_natCast, Int.toNat_of_nonneg natural]
  rw [steps, spanned]
  exact ⟨by exact_mod_cast fits, near⟩

/-! ## From steps to their value -/

/-- All values of a range are small. -/
theorem abs_le_of_mem (grid : r.IsGrid) {p : ℚ} (inside : r.low.toRat ≤ p ∧ p ≤ r.high.toRat) :
    |p| ≤ 2 ^ 20 ∧ |p * r.perUnit| ≤ 2 ^ 20 := by
  obtain ⟨low, high⟩ := grid.reach
  have below := mul_le_mul_of_nonneg_right inside.1 r.perUnit_pos.le
  have above := mul_le_mul_of_nonneg_right inside.2 r.perUnit_pos.le
  have scaled : |p * r.perUnit| ≤ 2 ^ 20 := by
    rw [abs_le]
    constructor <;> linarith
  refine ⟨le_trans ?_ scaled, scaled⟩
  rw [abs_mul, abs_of_pos r.perUnit_pos]
  exact le_mul_of_one_le_right (abs_nonneg p) r.one_le_perUnit

/-- Wherever steps of up to 22 bits lead is small. -/
theorem abs_le_of_few (grid : r.IsGrid) {n : Nat} (few : n ≤ 2 ^ 21) :
    |r.low.toRat + n / r.perUnit| ≤ 3 * 2 ^ 20 ∧ |(r.low.toRat + n / r.perUnit) * r.perUnit| ≤ 3 * 2 ^ 20 := by
  have scaled : |(r.low.toRat + n / r.perUnit) * r.perUnit| ≤ 3 * 2 ^ 20 := by
    have more : |(n : ℚ)| ≤ 2 ^ 21 := by
      rw [abs_of_nonneg (Nat.cast_nonneg n)]
      exact_mod_cast few
    obtain ⟨-, start⟩ := grid.abs_le_of_mem ⟨le_rfl, grid.ordered⟩
    rw [add_mul, div_mul_cancel₀ _ r.perUnit_pos.ne']
    exact (abs_add_le _ _).trans ((add_le_add start more).trans (by norm_num))
  refine ⟨le_trans ?_ scaled, scaled⟩
  rw [abs_mul, abs_of_pos r.perUnit_pos]
  exact le_mul_of_one_le_right (abs_nonneg _) r.one_le_perUnit

/-- The number that is scaled to be rounded is far nearer than half a step to where the steps lead. -/
theorem denotes_rescaled (grid : r.IsGrid) {n : Nat} {p : ℚ} (few : n ≤ 2 ^ 21)
    (leads : p = r.low.toRat + n / r.perUnit) :
    ∃ b, ((ofNat n / r.scale + r.low) * r.scale).Denotes b ∧ |b - p * r.perUnit| ≤ 1 / 2 ^ 20 := by
  obtain ⟨size, scaledSize⟩ := grid.abs_le_of_few few
  rw [← leads] at size scaledSize
  have quotient : |(n : ℚ) / r.perUnit| < 2 ^ 22 := by
    have bound : (n : ℚ) ≤ 2 ^ 21 := by exact_mod_cast few
    rw [abs_of_nonneg (div_nonneg (Nat.cast_nonneg n) r.perUnit_pos.le)]
    exact ((div_le_self (Nat.cast_nonneg n) r.one_le_perUnit).trans bound).trans_lt (by norm_num)
  have offset : |rounded (n / r.perUnit) + r.low.toRat - p| ≤ 1 / 2 ^ 32 := by
    rw [leads, show rounded (n / r.perUnit) + r.low.toRat - (r.low.toRat + n / r.perUnit) =
      rounded (n / r.perUnit) - n / r.perUnit by ring]
    exact abs_rounded_sub_le_tiny quotient
  have sum := abs_lt_of_near offset size (by norm_num : _ < (2 : ℚ) ^ 22)
  have near : |rounded (rounded (n / r.perUnit) + r.low.toRat) - p| ≤ 2 / 2 ^ 32 := by
    refine (abs_sub_le _ _ _).trans ((add_le_add (abs_rounded_sub_le_tiny sum) offset).trans ?_)
    norm_num
  have scaled := grid.abs_scaled_sub_le near
  have product := abs_lt_of_near scaled scaledSize (by norm_num : _ < (2 : ℚ) ^ 22)
  have counted : (ofNat n).Denotes n := denotes_ofNat (few.trans_lt (by norm_num))
  have divided := counted.div grid.denotes_scale r.perUnit_pos.ne' (two_pow_lt (by norm_num) quotient)
  have moved := divided.add grid.denotes_low (two_pow_lt (by norm_num) sum)
  refine ⟨_, moved.mul grid.denotes_scale (two_pow_lt (by norm_num) product), ?_⟩
  refine (abs_sub_le _ _ _).trans ((add_le_add (abs_rounded_sub_le_tiny product) scaled).trans ?_)
  norm_num

/-- **The value of some steps**, even if a range has not so many, is the number nearest to where they lead. -/
theorem denotes_dequantize (grid : r.IsGrid) {n : Nat} (few : n ≤ 2 ^ 21) :
    (r.dequantize n).Denotes (rounded (r.low.toRat + n / r.perUnit)) := by
  have pos := r.perUnit_pos
  obtain ⟨low, -, whole, -⟩ := grid.steps_whole
  let p := r.low.toRat + n / r.perUnit
  obtain ⟨size, scaledSize⟩ := grid.abs_le_of_few few
  obtain ⟨b, scaled, near⟩ := grid.denotes_rescaled few rfl
  have steps : p * r.perUnit = (low + n : ℤ) := by
    rw [add_mul, div_mul_cancel₀ _ pos.ne', whole]
    push_cast
    rfl
  have small := abs_lt_of_near near scaledSize (by norm_num : _ < (2 : ℚ) ^ 52)
  obtain ⟨m, rounded, half⟩ := scaled.roundHalfAway small
  -- The rounded number is whole and less than one from a whole number, so it is that number.
  obtain rfl : m = low + n := by
    apply eq_of_abs_sub_lt_one
    rw [← steps]
    exact ((abs_sub_le _ _ _).trans (add_le_add half near)).trans_lt (by norm_num)
  have quotient : ((low + n : ℤ) : ℚ) / r.perUnit = p := by
    rw [← steps, mul_div_cancel_right₀ _ pos.ne']
  have narrow : |p| < 2 ^ 22 := size.trans_lt (by norm_num)
  have divided := rounded.div grid.denotes_scale pos.ne'
    (by rw [quotient]; exact two_pow_lt (by norm_num) narrow)
  rwa [quotient] at divided

/-- The value of steps of a range is a number of the range. -/
theorem dequantize_spec (grid : r.IsGrid) {n : Nat}
    (inside : (n : ℚ) ≤ (r.high.toRat - r.low.toRat) * r.perUnit) :
    ∃ d, (r.dequantize n).Denotes d ∧ r.low.toRat ≤ d ∧ d ≤ r.high.toRat ∧
      |d - (r.low.toRat + n / r.perUnit)| ≤ 1 / 2 ^ 32 := by
  have pos := r.perUnit_pos
  obtain ⟨-, -, many⟩ := grid.scaled_le ⟨le_rfl, grid.ordered⟩
  have few : n ≤ 2 ^ 21 := by exact_mod_cast inside.trans many
  have steps : (n : ℚ) / r.perUnit ≤ r.high.toRat - r.low.toRat := (div_le_iff₀ pos).mpr inside
  have nonneg : 0 ≤ (n : ℚ) / r.perUnit := by positivity
  have narrow : |r.low.toRat + n / r.perUnit| < 2 ^ 22 :=
    (grid.abs_le_of_few few).1.trans_lt (by norm_num)
  exact ⟨_, grid.denotes_dequantize few,
    le_rounded (two_pow_lt (by norm_num) narrow) grid.denotes_low.holds (by linarith),
    rounded_le (two_pow_lt (by norm_num) narrow) grid.denotes_high.holds (by linarith),
    abs_rounded_sub_le_tiny narrow⟩

/-! ## There and back -/

/-- **Values stay within a step.** What comes back of a number is in the range and no more than a step away
from the nearest value of the range. -/
theorem dequantize_quantize (grid : r.IsGrid) (v : Binary64) :
    ∃ d, (r.dequantize (r.quantize r.width v)).Denotes d ∧ r.low.toRat ≤ d ∧ d ≤ r.high.toRat ∧
      |d - r.clamped v| ≤ 1 / r.perUnit := by
  obtain ⟨inside, near⟩ := grid.quantize_spec v
  obtain ⟨d, denoted, low, high, lost⟩ := grid.dequantize_spec inside
  have pos := r.perUnit_pos
  have fine := grid.perUnit_le
  refine ⟨d, denoted, low, high, ?_⟩
  have steps : |r.low.toRat + r.quantize r.width v / r.perUnit - r.clamped v| ≤
      (1 / 2 + 1 / 2 ^ 20) / r.perUnit := by
    have distance : r.low.toRat + r.quantize r.width v / r.perUnit - r.clamped v =
        (r.quantize r.width v - (r.clamped v - r.low.toRat) * r.perUnit) / r.perUnit := by
      field_simp
      ring
    rw [distance, abs_div, abs_of_pos pos]
    exact div_le_div_of_nonneg_right near pos.le
  have tiny : (1 : ℚ) / 2 ^ 32 ≤ 1 / 2 ^ 20 / r.perUnit := by
    rw [le_div_iff₀ pos]
    norm_num
    linarith
  calc |d - r.clamped v| ≤ 1 / 2 ^ 20 / r.perUnit + (1 / 2 + 1 / 2 ^ 20) / r.perUnit :=
        (abs_sub_le _ _ _).trans (add_le_add (lost.trans tiny) steps)
    _ = (1 / 2 ^ 20 + (1 / 2 + 1 / 2 ^ 20)) / r.perUnit := (add_div _ _ _).symm
    _ ≤ 1 / r.perUnit := div_le_div_of_nonneg_right (by norm_num) pos.le

/-- **Steps are stable.** The value of some steps has these steps. -/
theorem quantize_dequantize (grid : r.IsGrid) {n : Nat}
    (inside : (n : ℚ) ≤ (r.high.toRat - r.low.toRat) * r.perUnit) :
    r.quantize r.width (r.dequantize n) = n := by
  obtain ⟨d, denoted, low, high, lost⟩ := grid.dequantize_spec inside
  obtain ⟨-, near⟩ := grid.quantize_spec (r.dequantize n)
  have pos := r.perUnit_pos
  rw [clamped_of_mem denoted ⟨low, high⟩] at near
  have scaled := grid.abs_scaled_sub_le lost
  have steps : d * r.perUnit - (r.low.toRat + n / r.perUnit) * r.perUnit =
      (d - r.low.toRat) * r.perUnit - n := by
    field_simp
    ring
  rw [steps] at scaled
  have apart : |((r.quantize r.width (r.dequantize n) : ℤ) : ℚ) - (n : ℤ)| < 1 := by
    push_cast
    exact ((abs_sub_le _ _ _).trans (add_le_add near scaled)).trans_lt (by norm_num)
  exact_mod_cast eq_of_abs_sub_lt_one apart

/-- What is no number takes no steps. -/
theorem quantize_of_isNaN (grid : r.IsGrid) {v : Binary64} (none : v.isNaN = true) :
    r.quantize r.width v = 0 := by
  obtain ⟨-, near⟩ := grid.quantize_spec v
  have start : r.clamped v = r.low.toRat := by
    unfold isNaN at none
    unfold clamped
    cases datum : v.datum with
    | nan => rfl
    | infinity | finite => simp [datum] at none
  rw [start, sub_self, zero_mul, sub_zero, abs_of_nonneg (Nat.cast_nonneg _)] at near
  have : ((r.quantize r.width v : ℕ) : ℚ) < 1 := near.trans_lt (by norm_num)
  have : r.quantize r.width v < 1 := by exact_mod_cast this
  omega

end IsGrid

end FixedPoint

end Telemetry
