import Mathlib.Analysis.Complex.ExponentialBounds
import Mathlib.Analysis.SpecialFunctions.Log.Base
import Mathlib.Tactic.IntervalCases
import Telemetry.Proofs.Binary.Nearest

/-!
# Rounded binary logarithms

A number from one on is a power of two and some last places more (`Holds.exists_excess`), so its binary logarithm
is a whole number and that of the excess above one (`binaryLog_excess`). The latter is lost in rounding if it is less
than half of the last place of the whole number. It is so for a few last places (`logExcess_lt`), which the
logarithm of two counts (`lostPlaces_eq`), and not for one more (`lt_logExcess`). Hence what the rounded
logarithm is: that of the power of two (`nearest_of_lost`), or more (`nearest_of_kept`).
-/

namespace Telemetry

open BinaryFormat

/-! ## Numbers between powers of two -/

/-- A number of 64 bits is below the power of two that the exponents end at. -/
theorem Binary64.Denotes.lt_two_pow {x : Binary64} {p : ℚ} (h : x.Denotes p) : p < 2 ^ (1024 : ℤ) := by
  obtain ⟨m, e, datum, value⟩ := h.datum
  obtain ⟨short, -, bounded⟩ := bounds_of_decode datum
  have nonneg := Datum.magnitude_nonneg m e
  have le : p ≤ Datum.magnitude m e := by
    rw [value]
    split
    · linarith
    · exact le_rfl
  calc p ≤ m * 2 ^ e := by rwa [Datum.magnitude_eq] at le
    _ < (2 ^ 53 : Nat) * 2 ^ e := by gcongr
    _ = 2 ^ ((53 : Nat) + e) := (two_zpow_add _ _).symm
    _ ≤ 2 ^ (1024 : ℤ) := zpow_le_zpow_right₀ (by norm_num) (by push_cast; omega)

/-- A number from one on exceeds a power of two by some of its last places. -/
theorem BinaryFormat.Holds.exists_excess {x : ℚ} (held : double.Holds x) (one_le : 1 ≤ x) :
    ∃ k j : Nat, j < 2 ^ 52 ∧ x = 2 ^ k * (1 + j / 2 ^ 52) := by
  obtain ⟨k, low, high⟩ := exists_nat_pow_near one_le (by norm_num : (1 : ℚ) < 2)
  have pos : (0 : ℚ) < 2 ^ k := by positivity
  obtain ⟨n, multiple⟩ := held.exists_place (k := k) (by exact_mod_cast low)
  have scaled : x = 2 ^ k * (n / 2 ^ 52) := by
    have unit : (2 : ℚ) ^ ((k : ℤ) - double.fractionBits) = 2 ^ k / 2 ^ 52 := by
      rw [zpow_sub₀ two_ne_zero, zpow_natCast]
      rfl
    rw [multiple, unit]
    ring
  have least : 2 ^ 52 ≤ n := by
    rw [scaled, le_mul_iff_one_le_right pos, one_le_div (by norm_num)] at low
    exact_mod_cast low
  have most : n < 2 ^ 53 := by
    rw [scaled, pow_succ 2 k, mul_lt_mul_iff_right₀ pos, div_lt_iff₀ (by norm_num), ← pow_succ'] at high
    exact_mod_cast high
  obtain ⟨j, rfl⟩ := Nat.exists_eq_add_of_le least
  refine ⟨k, j, by omega, ?_⟩
  rw [scaled]
  push_cast
  ring

/-- With an excess of less than itself a power of two stays below the next one. -/
theorem excess_bounds (k : Nat) {j : Nat} (short : j < 2 ^ 52) :
    (2 : ℚ) ^ k ≤ 2 ^ k * (1 + j / 2 ^ 52) ∧ (2 : ℚ) ^ k * (1 + j / 2 ^ 52) < 2 ^ (k + 1) := by
  have power : (0 : ℚ) < 2 ^ k := by positivity
  have part : (j : ℚ) / 2 ^ 52 < 1 := by
    rw [div_lt_one (by positivity)]
    exact_mod_cast short
  constructor
  · exact le_mul_of_one_le_right power.le (le_add_of_nonneg_right (by positivity))
  · rw [pow_succ 2 k]
    exact mul_lt_mul_of_pos_left (by linarith) power

theorem lt_excess (k : Nat) {j : Nat} (some : 0 < j) : (2 : ℚ) ^ k < 2 ^ k * (1 + j / 2 ^ 52) :=
  lt_mul_of_one_lt_right (by positivity) (lt_add_of_pos_right _ (by positivity))

/-! ## Logarithms just above a whole number -/

section Logarithm

variable {k j : Nat}

/-- How many last places above `2^k` the binary logarithm is rounded down to `k`. -/
def lostPlaces (k : Nat) : Nat :=
  2 ^ k.log2 * 6931471805599453 / 20000000000000000

/-- Ten places of the logarithm of two tell how many, as no whole number comes nearer. -/
theorem lostPlaces_bounds (few : k.log2 ≤ 9) :
    lostPlaces k * 20000000000 ≤ 2 ^ k.log2 * 6931471803 ∧
      2 ^ k.log2 * 6931471808 * (2 ^ 53 + (lostPlaces k + 1) * 2) ≤ (lostPlaces k + 1) * 20000000000 * 2 ^ 53 := by
  unfold lostPlaces
  generalize k.log2 = e at few ⊢
  interval_cases e <;> decide

theorem lostPlaces_between (few : k.log2 ≤ 9) :
    (lostPlaces k : ℝ) / 2 ^ 52 ≤ 2 ^ k.log2 / 2 ^ 53 * 0.6931471803 ∧
      2 ^ k.log2 / 2 ^ 53 * 0.6931471808 * (1 + (lostPlaces k + 1 : Nat) / 2 ^ 52 : ℝ) ≤
        (lostPlaces k + 1 : Nat) / 2 ^ 52 := by
  obtain ⟨down, up⟩ := lostPlaces_bounds few
  have down : (lostPlaces k * 20000000000 : ℝ) ≤ 2 ^ k.log2 * 6931471803 := by exact_mod_cast down
  have up : (2 ^ k.log2 * 6931471808 * (2 ^ 53 + (lostPlaces k + 1 : Nat) * 2) : ℝ) ≤
      (lostPlaces k + 1 : Nat) * 20000000000 * 2 ^ 53 := by exact_mod_cast up
  constructor <;> linarith

/-- The last places that are lost are counted by the logarithm of two. -/
theorem lostPlaces_eq (few : k.log2 ≤ 9) : lostPlaces k = ⌊2 ^ k.log2 * Real.log 2 / 2⌋₊ := by
  have pos : (0 : ℝ) < 2 ^ k.log2 := by positivity
  have low := Real.log_two_gt_d9
  have high := Real.log_two_lt_d9
  obtain ⟨down, up⟩ := lostPlaces_between few
  push_cast at up
  symm
  rw [Nat.floor_eq_iff (by positivity)]
  constructor
  · nlinarith
  · nlinarith

/-- The binary logarithm of a rational. -/
noncomputable def binaryLog (x : ℚ) : ℝ :=
  Real.logb 2 x

/-- The binary logarithm of so many last places above one. -/
noncomputable def logExcess (j : Nat) : ℝ :=
  Real.logb 2 (1 + j / 2 ^ 52)

theorem place_cast (k : Nat) : (place k : ℝ) / 2 = 2 ^ k.log2 / 2 ^ 53 := by
  unfold place
  push_cast
  rw [zpow_sub₀ two_ne_zero, zpow_natCast]
  norm_num
  ring

theorem logExcess_le {more : Nat} (le : j ≤ more) : logExcess j ≤ logExcess more := by
  have : (j : ℝ) ≤ more := by exact_mod_cast le
  apply Real.logb_le_logb_of_le one_lt_two (by positivity)
  gcongr

/-- **An excess of few last places is less than half of the last place of the logarithm.** -/
theorem logExcess_lt (few : k.log2 ≤ 9) (lost : j ≤ lostPlaces k) : logExcess j < (place k : ℝ) / 2 := by
  have pos : (0 : ℝ) < 2 ^ k.log2 := by positivity
  have two := Real.log_two_gt_d9
  obtain ⟨down, -⟩ := lostPlaces_between few
  refine (logExcess_le lost).trans_lt ?_
  rw [place_cast, logExcess, Real.logb, div_lt_iff₀ (Real.log_pos one_lt_two)]
  calc Real.log (1 + lostPlaces k / 2 ^ 52) ≤ 1 + lostPlaces k / 2 ^ 52 - 1 :=
        Real.log_le_sub_one_of_pos (by positivity)
    _ = lostPlaces k / 2 ^ 52 := add_sub_cancel_left _ _
    _ ≤ 2 ^ k.log2 / 2 ^ 53 * 0.6931471803 := down
    _ < 2 ^ k.log2 / 2 ^ 53 * Real.log 2 := by gcongr

/-- **An excess of one more is more than that.** -/
theorem lt_logExcess (few : k.log2 ≤ 9) (kept : lostPlaces k < j) : (place k : ℝ) / 2 < logExcess j := by
  have pos : (0 : ℝ) < 2 ^ k.log2 := by positivity
  have two := Real.log_two_lt_d9
  obtain ⟨-, up⟩ := lostPlaces_between few
  refine lt_of_lt_of_le ?_ (logExcess_le kept)
  have whole : (0 : ℝ) < 1 + (lostPlaces k + 1 : Nat) / 2 ^ 52 := by positivity
  rw [place_cast, logExcess, Real.logb, lt_div_iff₀ (Real.log_pos one_lt_two)]
  calc (2 : ℝ) ^ k.log2 / 2 ^ 53 * Real.log 2 < 2 ^ k.log2 / 2 ^ 53 * 0.6931471808 := by gcongr
    _ ≤ 1 - (1 + (lostPlaces k + 1 : Nat) / 2 ^ 52 : ℝ)⁻¹ := by
      rw [le_sub_iff_add_le, ← le_sub_iff_add_le', inv_le_iff_one_le_mul₀ whole]
      linarith
    _ ≤ Real.log (1 + (lostPlaces k + 1 : Nat) / 2 ^ 52) := Real.one_sub_inv_le_log_of_pos whole

theorem binaryLog_excess (k j : Nat) : binaryLog (2 ^ k * (1 + j / 2 ^ 52)) = k + logExcess j := by
  have whole : (1 + j / 2 ^ 52 : ℝ) ≠ 0 := by positivity
  unfold binaryLog
  push_cast
  rw [Real.logb_mul (by positivity) whole, Real.logb_pow, Real.logb_self_eq_one one_lt_two, mul_one, logExcess]

theorem logExcess_nonneg (j : Nat) : 0 ≤ logExcess j := by
  have : (0 : ℝ) ≤ j / 2 ^ 52 := by positivity
  exact Real.logb_nonneg one_lt_two (by linarith)

theorem logExcess_lt_one (short : j < 2 ^ 52) : logExcess j < 1 := by
  have part : (j : ℝ) / 2 ^ 52 < 1 := by
    rw [div_lt_one (by positivity)]
    exact_mod_cast short
  calc logExcess j < Real.logb 2 2 := Real.logb_lt_logb one_lt_two (by positivity) (by linarith)
    _ = 1 := Real.logb_self_eq_one one_lt_two

variable {log : ℚ}

/-- Few last places above a power of two the rounded logarithm is that of the power. -/
theorem nearest_of_lost (few : k.log2 ≤ 9) (lost : j ≤ lostPlaces k)
    (nearest : double.Nearest (k + logExcess j) log) : log = k := by
  have close := logExcess_lt few lost
  have nonneg := logExcess_nonneg j
  rcases Nat.eq_zero_or_pos k with rfl | pos
  · -- Above one nothing is lost.
    have none : j = 0 := Nat.le_zero.mp lost
    have held := holds_natCast (k := 0) (by decide)
    have exact : logExcess 0 = 0 := by simp [logExcess]
    subst none
    rw [exact, add_zero] at nearest
    exact le_antisymm (nearest.le held (by simp)) (nearest.ge held (by simp))
  · exact nearest.eq_natCast pos.ne' (by omega) (by linarith) (by linarith)

/-- Farther above it the rounded logarithm is greater, but not beyond that of the next power. -/
theorem nearest_of_kept (few : k.log2 ≤ 9) (short : j < 2 ^ 52) (kept : lostPlaces k < j)
    (nearest : double.Nearest (k + logExcess j) log) : k < log ∧ log ≤ k + 1 := by
  have far := lt_logExcess few kept
  have below := logExcess_lt_one short
  constructor
  · exact nearest.natCast_lt (by omega) (by linarith)
  · have next : (k + 1).log2 < 52 := by
      have below : k < 2 ^ (k.log2 + 1) := Nat.lt_log2_self
      have reach : 2 ^ (k.log2 + 1) ≤ 2 ^ 10 := Nat.pow_le_pow_right (by decide) (by omega)
      rw [Nat.log2_lt (by omega)]
      omega
    have le := nearest.le (holds_natCast next) (by push_cast; linarith)
    exact_mod_cast le

end Logarithm

end Telemetry
