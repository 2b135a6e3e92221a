import Telemetry.Decimal.Numeral
import Telemetry.Proofs.Decimal.Interval

/-!
# Shortest decimals are read back

Whichever decimal is taken for a number lies in the interval around it (`Decimal.contains_shortest`): grid
points are taken for nothing else, and the exact value, which is taken where there are none, is its middle.
Zeros that are moved into the exponent leave the value alone. A decimal from the interval is neither so small
nor so great that counting its digits would settle what is read, so it is rounded, and to the number
(`nearestDecimal_of_contains`).
-/

namespace Telemetry

namespace Decimal

theorem powTen_eq (exponent : ℤ) : powTen exponent = (10 : ℚ) ^ exponent := by
  have split : exponent = (exponent.toNat : ℤ) - ((-exponent).toNat : ℤ) := by omega
  rw [powTen, Rat.mkRat_eq_div]
  conv_rhs => rw [split, zpow_sub₀ (by norm_num), zpow_natCast, zpow_natCast]
  simp only [Nat.pow_eq]
  push_cast
  rfl

theorem toRat_eq (d : Decimal) : d.toRat = d.digits * (10 : ℚ) ^ d.exponent := by
  rw [toRat, powTen_eq]

/-- A point of a grid is written only if it lies in the interval. -/
theorem contains_of_onGrid? {tie : Tie} {interval : Interval} {x : ℚ} {exponent : ℤ} {d : Decimal}
    (h : onGrid? tie interval x exponent = some d) : interval.contains d.toRat = true := by
  unfold onGrid? at h
  dsimp only at h
  split at h
  · cases h
  · rename_i lower _
    cases h
    exact lower
  · rename_i _ upper
    cases h
    exact upper
  · rename_i lower upper
    split at h
    · cases h
      exact lower
    · split at h
      · cases h
        exact upper
      · split at h
        · cases h
          exact upper
        · cases h
          split
          · exact lower
          · exact upper

theorem toRat_dropZeros (steps : Nat) (d : Decimal) : (dropZeros steps d).toRat = d.toRat := by
  induction steps generalizing d with
  | zero => rfl
  | succ steps ih =>
    unfold dropZeros
    split
    · rename_i zero
      have whole : d.digits / 10 * 10 = d.digits := Nat.div_mul_cancel (Nat.dvd_of_mod_eq_zero zero.2)
      rw [ih, toRat_eq, toRat_eq, zpow_add_one₀ (by norm_num)]
      dsimp only
      conv_rhs => rw [← whole]
      push_cast
      ring
    · rfl

/-- The exact value of a number as a decimal. -/
theorem toRat_exact (significand : Nat) (exponent : ℤ) :
    toRat ⟨significand * Nat.pow 2 exponent.toNat * Nat.pow 5 (-exponent).toNat, min exponent 0⟩ =
      Datum.magnitude significand exponent := by
  have five : (10 : ℚ) ^ (-exponent).toNat = 2 ^ (-exponent).toNat * 5 ^ (-exponent).toNat := by
    rw [← mul_pow]
    norm_num
  have ten : (10 : ℚ) ^ min exponent 0 = 1 / 10 ^ (-exponent).toNat := by
    rw [show min exponent 0 = -((-exponent).toNat : ℤ) by omega, zpow_neg, zpow_natCast, one_div]
  rw [toRat_eq, ten, five, Datum.magnitude_eq, two_zpow_eq_div]
  simp only [Nat.pow_eq]
  push_cast
  field_simp

section Shortest

variable {significand : Nat} (tie : Tie) (pos : 0 < significand) (exponent : ℤ)

include pos

/-- **The decimal that is written lies in the interval around the number.** -/
theorem contains_shortest :
    (Interval.around significand exponent).contains (shortest tie significand exponent).toRat = true := by
  unfold shortest
  dsimp only
  rw [toRat_dropZeros]
  cases found : (List.range 17).findSome? fun n =>
      onGrid? tie (Interval.around significand exponent) (Datum.magnitude significand exponent)
        (scale (Datum.magnitude significand exponent) - (n + 1 : Nat)) with
  | some d =>
    obtain ⟨n, -, onGrid⟩ := List.exists_of_findSome?_eq_some found
    exact contains_of_onGrid? onGrid
  | none =>
    rw [Option.getD_none, toRat_exact]
    exact Interval.contains_magnitude pos exponent

theorem digits_shortest_pos : 0 < (shortest tie significand exponent).digits := by
  have positive := Interval.pos_of_contains pos (contains_shortest tie pos exponent)
  by_contra none
  rw [toRat_eq, Nat.eq_zero_of_not_pos none, Nat.cast_zero, zero_mul] at positive
  exact lt_irrefl 0 positive

end Shortest

end Decimal

/-! ## Reading decimals -/

theorem length_toDigits_bounds {n : Nat} (pos : 0 < n) :
    10 ^ ((Nat.toDigits 10 n).length - 1) ≤ n ∧ n < 10 ^ (Nat.toDigits 10 n).length := by
  have some : 0 < (Nat.toDigits 10 n).length := Nat.length_toDigits_pos
  refine ⟨?_, (Nat.length_toDigits_le_iff (by decide) some).mp le_rfl⟩
  rcases Nat.eq_zero_or_pos ((Nat.toDigits 10 n).length - 1) with one | more
  · rw [one]
    exact pos
  · by_contra less
    have short := (Nat.length_toDigits_le_iff (by decide) more).mpr (Nat.lt_of_not_le less)
    omega

/-- A decimal of any size that a number has is rounded as it is. -/
theorem nearestDecimal_eq_round (negative : Bool) {digits : Nat} {exponent : ℤ}
    (low : (2 : ℚ) ^ (-1075 : ℤ) ≤ digits * 10 ^ exponent) (high : digits * (10 : ℚ) ^ exponent < 2 ^ (1024 : ℤ)) :
    nearestDecimal negative digits exponent = Binary64.round negative (digits * 10 ^ exponent) := by
  have exact : mkRat (digits * Nat.pow 10 exponent.toNat) (Nat.pow 10 (-exponent).toNat) =
      (digits : ℚ) * 10 ^ exponent := by
    rw [← Decimal.powTen_eq, Decimal.powTen, Rat.mkRat_eq_div, Rat.mkRat_eq_div]
    push_cast
    ring
  have ten : (0 : ℚ) < 10 ^ exponent := by positivity
  have some : 0 < digits := by
    by_contra none
    rw [Nat.eq_zero_of_not_pos none, Nat.cast_zero, zero_mul] at low
    exact absurd low (not_le.mpr (by positivity))
  obtain ⟨least, most⟩ := length_toDigits_bounds some
  have front : 0 < (Nat.toDigits 10 digits).length := Nat.length_toDigits_pos
  unfold nearestDecimal
  dsimp only
  generalize (Nat.toDigits 10 digits).length = length at least most front ⊢
  have least : (10 : ℚ) ^ (exponent + length - 1) ≤ digits * 10 ^ exponent := by
    rw [show exponent + length - 1 = (length - 1 : Nat) + exponent by omega, zpow_add₀ (by norm_num), zpow_natCast]
    gcongr
    exact_mod_cast least
  have most : (digits : ℚ) * 10 ^ exponent < 10 ^ (exponent + length) := by
    rw [add_comm, zpow_add₀ (by norm_num), zpow_natCast]
    gcongr
    exact_mod_cast most
  rw [if_neg, if_neg, exact]
  · intro large
    have reach : (10 : ℚ) ^ (310 : ℤ) ≤ 10 ^ (exponent + length - 1) :=
      zpow_le_zpow_right₀ (by norm_num) (by omega)
    have beyond : (2 : ℚ) ^ (1024 : ℤ) ≤ 10 ^ (310 : ℤ) := by
      have natural : 2 ^ 1024 ≤ 10 ^ 310 := by decide +kernel
      exact_mod_cast natural
    exact absurd (reach.trans least) (not_le.mpr (high.trans_le beyond))
  · rintro (none | small)
    · omega
    · have reach : (10 : ℚ) ^ (exponent + length) ≤ 10 ^ (-331 : ℤ) :=
        zpow_le_zpow_right₀ (by norm_num) (by omega)
      have beyond : (10 : ℚ) ^ (-331 : ℤ) < 2 ^ (-1075 : ℤ) := by
        have natural : 2 ^ 1075 < 10 ^ 331 := by decide +kernel
        rw [zpow_neg, zpow_neg, inv_lt_inv₀ (by positivity) (by positivity)]
        exact_mod_cast natural
      exact absurd (most.trans_le reach) (not_lt.mpr (beyond.le.trans low))

/-- **A decimal from the interval around a number is read as it.** -/
theorem nearestDecimal_of_contains {x : Binary64} {negative : Bool} {m : Nat} {e : ℤ}
    (h : x.datum = .finite negative m e) (pos : 0 < m) {digits : Nat} {exponent : ℤ}
    (inside : (Interval.around m e).contains (digits * 10 ^ exponent) = true) :
    nearestDecimal negative digits exponent = x := by
  obtain ⟨short, least, most⟩ := BinaryFormat.bounds_of_decode h
  obtain ⟨low, high, -⟩ := Interval.bounds_of_contains pos inside
  have quarter : (0 : ℚ) < 2 ^ (e - 2) := by positivity
  rw [nearestDecimal_eq_round negative, Binary64.round_of_contains h pos inside]
  · have one : (1 : ℚ) ≤ m := by exact_mod_cast pos
    have scaled := mul_le_mul_of_nonneg_right one quarter.le
    have reach : (2 : ℚ) ^ (-1075 : ℤ) ≤ 2 ^ ((1 : Nat) + (e - 2)) :=
      zpow_le_zpow_right₀ (by norm_num) (by push_cast; omega)
    rw [two_zpow_add] at reach
    refine reach.trans (le_trans ?_ low)
    push_cast
    split <;> linarith
  · have under : (m : ℚ) + 1 ≤ 2 ^ 53 := by exact_mod_cast short
    have scaled := mul_le_mul_of_nonneg_right under quarter.le
    have reach : (2 : ℚ) ^ ((55 : Nat) + (e - 2)) ≤ 2 ^ (1024 : ℤ) :=
      zpow_le_zpow_right₀ (by norm_num) (by push_cast; omega)
    rw [two_zpow_add] at reach
    refine lt_of_lt_of_le (high.trans_lt ?_) reach
    push_cast
    linarith

end Telemetry
