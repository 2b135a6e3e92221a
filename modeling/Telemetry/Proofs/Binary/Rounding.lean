import Mathlib.Algebra.Order.Field.Power
import Mathlib.Data.Rat.Cast.Order
import Mathlib.Tactic.FieldSimp
import Mathlib.Tactic.Linarith
import Mathlib.Tactic.Positivity
import Mathlib.Tactic.Ring
import Telemetry.Binary.Format

/-!
# Rounding to a binary format

The numbers that a format holds are the multiples of a unit `2^e` by a significand of one bit more than
its fraction (`BinaryFormat.Holds`). A magnitude is rounded to the nearest multiple of a unit that suits
its size (`BinaryFormat.significand_fits`). Above the least unit that multiple takes at least the hidden
bit, so its pattern, carried into the exponent field or not, denotes it (`BinaryFormat.decode_pattern`);
and numbers with a finer unit are below the power of two that the unit was chosen by, so that none of them
is nearer (`BinaryFormat.significand_nearest`). So a rational of either sign is rounded to a number that no other
is nearer to than it (`BinaryFormat.ofRat_spec`).
-/

namespace Telemetry

/-- A power of two as a quotient of powers with natural exponents. -/
theorem two_zpow_eq_div (e : ℤ) : (2 : ℚ) ^ e = 2 ^ e.toNat / 2 ^ (-e).toNat := by
  have split : e = (e.toNat : ℤ) - ((-e).toNat : ℤ) := by omega
  conv_lhs => rw [split, zpow_sub₀ two_ne_zero, zpow_natCast, zpow_natCast]

theorem two_zpow_add (n : ℕ) (e : ℤ) : (2 : ℚ) ^ (n + e) = (2 ^ n : Nat) * 2 ^ e := by
  rw [zpow_add₀ two_ne_zero, zpow_natCast]
  push_cast
  rfl

/-- The size of a rational as a quotient of naturals. -/
theorem abs_eq_natAbs_div (x : ℚ) : |x| = (x.num.natAbs : ℚ) / x.den := by
  rw [Rat.abs_def, Rat.divInt_eq_div, Int.cast_natCast, Int.cast_natCast]

/-- A sign that is that of a rational does not matter for the distance from it. -/
theorem abs_signed_sub (m x v : ℚ) :
    |(if x < 0 then -m else m) - x| = |m - (|x|)| ∧ |v - x| = |(if x < 0 then -v else v) - (|x|)| := by
  by_cases below : x < 0
  · rw [if_pos below, if_pos below, abs_of_neg below]
    exact ⟨by rw [← abs_neg]; ring_nf, by rw [← abs_neg]; ring_nf⟩
  · rw [if_neg below, if_neg below, abs_of_nonneg (not_lt.mp below)]
    exact ⟨rfl, rfl⟩

theorem Datum.magnitude_eq (significand : Nat) (exponent : Int) :
    magnitude significand exponent = significand * (2 : ℚ) ^ exponent := by
  rw [magnitude, Rat.mkRat_eq_div, two_zpow_eq_div]
  simp only [Nat.pow_eq]
  push_cast
  ring

theorem Datum.magnitude_nonneg (significand : Nat) (exponent : Int) : 0 ≤ magnitude significand exponent := by
  rw [magnitude_eq]
  positivity

/-! ## Quotients -/

section Quotient

variable {num den : Nat}

/-- A quotient is rounded by half a unit at most. -/
theorem abs_nearestEven_sub_le (num : Nat) (pos : 0 < den) :
    |(nearestEven num den : ℚ) - num / den| ≤ 1 / 2 := by
  have whole : den * (num / den) + num % den = num := Nat.div_add_mod num den
  have below : num % den < den := Nat.mod_lt num pos
  have scaled : 2 * (nearestEven num den * den) ≤ 2 * num + den ∧
      2 * num ≤ 2 * (nearestEven num den * den) + den := by
    have up : (num / den + 1) * den = den * (num / den) + den := by ring
    have down : num / den * den = den * (num / den) := Nat.mul_comm _ _
    unfold nearestEven
    dsimp only
    split
    · rw [down]; omega
    · split
      · rw [up]; omega
      · split
        · rw [down]; omega
        · rw [up]; omega
  have some : (0 : ℚ) < den := Nat.cast_pos.mpr pos
  have upper : (2 : ℚ) * (nearestEven num den * den) ≤ 2 * num + den := by exact_mod_cast scaled.1
  have lower : (2 : ℚ) * num ≤ 2 * (nearestEven num den * den) + den := by exact_mod_cast scaled.2
  have quotient : (num : ℚ) / den * den = num := div_mul_cancel₀ _ some.ne'
  rw [abs_le]
  constructor <;> nlinarith

/-- No whole number is nearer to a quotient than the rounded one. -/
theorem abs_nearestEven_sub_le_abs (num : Nat) (pos : 0 < den) (n : ℤ) :
    |(nearestEven num den : ℚ) - num / den| ≤ |(n : ℚ) - num / den| := by
  have near := abs_nearestEven_sub_le num pos
  by_cases same : n = nearestEven num den
  · rw [same, Int.cast_natCast]
  · -- Another whole number is at least one away from the rounded one.
    have apart : (1 : ℚ) ≤ |(n : ℚ) - (nearestEven num den : ℤ)| := by
      exact_mod_cast Int.one_le_abs (sub_ne_zero.mpr same)
    have through := abs_sub_le (n : ℚ) (num / den) (nearestEven num den : ℤ)
    rw [Int.cast_natCast] at through apart
    rw [abs_sub_comm ((num : ℚ) / den)] at through
    linarith

theorem floorLog2_le_iff (num : Nat) (pos : 0 < den) (e : ℤ) :
    den * Nat.pow 2 e.toNat ≤ num * Nat.pow 2 (-e).toNat ↔ (2 : ℚ) ^ e ≤ num / den := by
  have some : (0 : ℚ) < den := Nat.cast_pos.mpr pos
  have power : (0 : ℚ) < 2 ^ (-e).toNat := by positivity
  rw [le_div_iff₀ some, two_zpow_eq_div, div_mul_eq_mul_div, div_le_iff₀ power, mul_comm (_ ^ _)]
  exact_mod_cast Iff.rfl

/-- The greatest power of two that is not above a quotient. -/
theorem floorLog2_spec (numPos : 0 < num) (denPos : 0 < den) :
    (2 : ℚ) ^ floorLog2 num den ≤ num / den ∧ (num : ℚ) / den < 2 ^ (floorLog2 num den + 1) := by
  have some : (0 : ℚ) < den := Nat.cast_pos.mpr denPos
  have numLow : (2 : ℚ) ^ (num.log2 : ℤ) ≤ num := by exact_mod_cast Nat.log2_self_le numPos.ne'
  have numHigh : (num : ℚ) < 2 ^ ((num.log2 : ℤ) + 1) := by exact_mod_cast Nat.lt_log2_self
  have denLow : (2 : ℚ) ^ (den.log2 : ℤ) ≤ den := by exact_mod_cast Nat.log2_self_le denPos.ne'
  have denHigh : (den : ℚ) < 2 ^ ((den.log2 : ℤ) + 1) := by exact_mod_cast Nat.lt_log2_self
  -- The logarithms of both sides leave two powers to choose from.
  have low : (2 : ℚ) ^ ((num.log2 : ℤ) - den.log2 - 1) ≤ num / den := by
    rw [le_div_iff₀ some]
    calc (2 : ℚ) ^ ((num.log2 : ℤ) - den.log2 - 1) * den
        ≤ 2 ^ ((num.log2 : ℤ) - den.log2 - 1) * 2 ^ ((den.log2 : ℤ) + 1) := by gcongr
      _ = 2 ^ (num.log2 : ℤ) := by rw [← zpow_add₀ two_ne_zero]; congr 1; ring
      _ ≤ num := numLow
  have high : (num : ℚ) / den < 2 ^ ((num.log2 : ℤ) - den.log2 + 1) := by
    rw [div_lt_iff₀ some]
    calc (num : ℚ) < 2 ^ ((num.log2 : ℤ) + 1) := numHigh
      _ = 2 ^ ((num.log2 : ℤ) - den.log2 + 1) * 2 ^ (den.log2 : ℤ) := by
        rw [← zpow_add₀ two_ne_zero]; congr 1; ring
      _ ≤ 2 ^ ((num.log2 : ℤ) - den.log2 + 1) * den := by gcongr
  unfold floorLog2
  dsimp only
  split
  · rename_i reached
    exact ⟨(floorLog2_le_iff num denPos _).mp reached, high⟩
  · rename_i short
    rw [sub_add_cancel]
    exact ⟨low, not_le.mp fun reached => short ((floorLog2_le_iff num denPos _).mpr reached)⟩

theorem floorLog2_lt (numPos : 0 < num) (denPos : 0 < den) {k : ℤ} (small : (num : ℚ) / den < 2 ^ k) :
    floorLog2 num den < k :=
  (zpow_lt_zpow_iff_right₀ (by norm_num : (1 : ℚ) < 2)).mp
    ((floorLog2_spec numPos denPos).1.trans_lt small)

end Quotient

namespace BinaryFormat

variable {f : BinaryFormat}

/-- The format holds a number, up to its sign and to how great its exponents are. -/
def Holds (f : BinaryFormat) (x : ℚ) : Prop :=
  ∃ (significand : Nat) (exponent : Int), significand < 2 ^ (f.fractionBits + 1) ∧
    f.leastExponent ≤ exponent ∧ |x| = significand * 2 ^ exponent

theorem Holds.neg {x : ℚ} (h : f.Holds x) : f.Holds (-x) := by
  obtain ⟨significand, exponent, short, least, same⟩ := h
  exact ⟨significand, exponent, short, least, (abs_neg x).trans same⟩

/-- Whole numbers of no more bits than a significand are held. -/
theorem holds_intCast (least : f.leastExponent ≤ 0) {n : ℤ} (short : |n| < 2 ^ (f.fractionBits + 1)) :
    f.Holds n := by
  refine ⟨n.natAbs, 0, ?_, least, ?_⟩
  · zify
    exact short
  · rw [zpow_zero, mul_one, Nat.cast_natAbs, Int.cast_abs]

/-! ## Patterns -/

theorem infinityBits_eq (f : BinaryFormat) :
    f.infinityBits = (2 ^ f.exponentBits - 1) * 2 ^ f.fractionBits := rfl

theorem infinityBits_lt (f : BinaryFormat) : f.infinityBits < f.signBit := by
  have pos := Nat.two_pow_pos f.exponentBits
  show (2 ^ f.exponentBits - 1) * 2 ^ f.fractionBits < 2 ^ (f.fractionBits + f.exponentBits)
  rw [pow_add, Nat.mul_comm (2 ^ f.fractionBits)]
  exact Nat.mul_lt_mul_of_pos_right (by omega) (Nat.two_pow_pos _)

theorem nearest_le_infinityBits (f : BinaryFormat) (num den : Nat) : f.nearest num den ≤ f.infinityBits := by
  unfold nearest
  split
  · exact Nat.zero_le _
  · exact Nat.min_le_left _ _

/-- The pattern of a rounded rational takes no more bits than the sign is the highest of. -/
theorem ofRat_lt (f : BinaryFormat) (negative : Bool) (x : ℚ) : f.ofRat negative x < 2 * f.signBit := by
  have magnitude := (f.nearest_le_infinityBits x.num.natAbs x.den).trans_lt f.infinityBits_lt
  unfold ofRat
  split <;> omega

/-- The sign is read apart from what the other bits of a pattern denote. -/
theorem decode_sign (negative : Bool) {bits : Nat} (below : bits < f.infinityBits) :
    f.decode ((if negative then f.signBit else 0) + bits) =
      if bits / 2 ^ f.fractionBits = 0 then
        .finite negative (bits % 2 ^ f.fractionBits) f.leastExponent
      else
        .finite negative (2 ^ f.fractionBits + bits % 2 ^ f.fractionBits)
          (f.leastExponent + (bits / 2 ^ f.fractionBits - 1 : Nat)) := by
  have inside := below.trans f.infinityBits_lt
  have sign : decide (f.signBit ≤ (if negative then f.signBit else 0) + bits) = negative := by
    cases negative <;> simp [inside]
  have rest : ((if negative then f.signBit else 0) + bits) % f.signBit = bits := by
    cases negative <;> simp [Nat.mod_eq_of_lt inside]
  unfold decode
  simp only [sign, rest, Nat.pow_eq]
  rw [if_neg below.not_gt, if_neg below.ne]

/-- **A pattern put together from a unit and a significand denotes their product.** A significand that
fills one bit more than it has is carried into the exponent, where it denotes the same. -/
theorem decode_pattern {shift significand : Nat} (negative : Bool)
    (short : significand ≤ 2 ^ (f.fractionBits + 1)) (hidden : 2 ^ f.fractionBits ≤ significand ∨ shift = 0)
    (below : shift * 2 ^ f.fractionBits + significand < f.infinityBits) :
    ∃ m e, f.decode ((if negative then f.signBit else 0) + (shift * 2 ^ f.fractionBits + significand)) =
        .finite negative m e ∧
      Datum.magnitude m e = significand * (2 : ℚ) ^ (f.leastExponent + shift) := by
  have unit := Nat.two_pow_pos f.fractionBits
  rw [decode_sign negative below]
  simp only [Datum.magnitude_eq]
  rw [pow_succ] at short
  rcases Nat.lt_or_ge significand (2 ^ f.fractionBits) with small | large
  · -- Without the hidden bit the unit is the least one.
    obtain rfl : shift = 0 := hidden.resolve_left small.not_ge
    rw [Nat.zero_mul, Nat.zero_add, Nat.div_eq_of_lt small, if_pos rfl, Nat.mod_eq_of_lt small]
    exact ⟨_, _, rfl, by simp⟩
  · rcases Nat.lt_or_ge significand (2 * 2 ^ f.fractionBits) with inside | full
    · obtain ⟨rest, rfl⟩ := Nat.exists_eq_add_of_le large
      have fraction : rest < 2 ^ f.fractionBits := by omega
      have field : shift * 2 ^ f.fractionBits + (2 ^ f.fractionBits + rest) =
          rest + 2 ^ f.fractionBits * (shift + 1) := by ring
      rw [field, Nat.add_mul_div_left _ _ unit, Nat.div_eq_of_lt fraction, Nat.add_mul_mod_self_left,
        Nat.mod_eq_of_lt fraction, if_neg (by omega)]
      refine ⟨_, _, rfl, ?_⟩
      rw [Nat.zero_add, Nat.add_sub_cancel]
    · obtain rfl : significand = 2 * 2 ^ f.fractionBits := by omega
      have field : shift * 2 ^ f.fractionBits + 2 * 2 ^ f.fractionBits =
          2 ^ f.fractionBits * (shift + 2) := by ring
      rw [field, Nat.mul_div_cancel_left _ unit, Nat.mul_mod_right, if_neg (by omega)]
      refine ⟨_, _, rfl, ?_⟩
      have carried : f.leastExponent + (shift + 2 - 1 : Nat) = f.leastExponent + shift + 1 := by omega
      rw [carried, zpow_add_one₀ two_ne_zero, Nat.add_zero]
      push_cast
      ring

/-- **What a pattern that denotes a number is made of.** Its magnitude is put together from the unit and the
significand, and above the least unit the significand has the hidden bit. -/
theorem fields_of_decode {bits m : Nat} {negative : Bool} {e : Int}
    (h : f.decode bits = .finite negative m e) :
    negative = decide (f.signBit ≤ bits) ∧ m < 2 ^ (f.fractionBits + 1) ∧ f.leastExponent ≤ e ∧
      (2 ^ f.fractionBits ≤ m ∨ e = f.leastExponent) ∧
      bits % f.signBit = (e - f.leastExponent).toNat * 2 ^ f.fractionBits + m ∧
      bits % f.signBit < f.infinityBits := by
  unfold decode at h
  dsimp only at h
  generalize bits % f.signBit = magnitude at h ⊢
  have fraction : magnitude % 2 ^ f.fractionBits < 2 ^ f.fractionBits := Nat.mod_lt _ (Nat.two_pow_pos _)
  have whole := Nat.div_add_mod' magnitude (2 ^ f.fractionBits)
  simp only [Nat.pow_eq] at h
  split at h
  · cases h
  · split at h
    · cases h
    · have below : magnitude < f.infinityBits := by omega
      split at h
      · rename_i zero
        cases h
        rw [zero, Nat.zero_mul] at whole
        exact ⟨rfl, by omega, le_rfl, .inr rfl, by simpa using whole.symm, below⟩
      · rename_i some
        obtain ⟨shift, biased⟩ := Nat.exists_eq_succ_of_ne_zero some
        cases h
        rw [biased, Nat.succ_mul] at whole
        rw [biased]
        refine ⟨rfl, by omega, by omega, .inl (Nat.le_add_right _ _), ?_, below⟩
        rw [add_sub_cancel_left, Nat.succ_sub_one, Int.toNat_natCast]
        omega

/-- What a pattern denotes, if it is a number, is held. -/
theorem holds_toRat {bits m : Nat} {negative : Bool} {e : Int}
    (h : f.decode bits = .finite negative m e) : f.Holds (f.decode bits).toRat := by
  obtain ⟨-, short, least, -⟩ := fields_of_decode h
  refine ⟨m, e, short, least, ?_⟩
  rw [h, Datum.toRat, ← Datum.magnitude_eq]
  cases negative <;> simp [abs_of_nonneg (Datum.magnitude_nonneg m e)]

/-! ## Rounding -/

/-- The exponent of the unit that a quotient is rounded in. -/
def unit (f : BinaryFormat) (num den : Nat) : Int :=
  max (floorLog2 num den - f.fractionBits) f.leastExponent

/-- The rounded quotient in its unit. -/
def significand (f : BinaryFormat) (num den : Nat) : Nat :=
  nearestEven (num * 2 ^ (-f.unit num den).toNat) (den * 2 ^ (f.unit num den).toNat)

theorem nearest_eq (f : BinaryFormat) {num : Nat} (pos : 0 < num) (den : Nat) :
    f.nearest num den = min f.infinityBits
      ((f.unit num den - f.leastExponent).toNat * 2 ^ f.fractionBits + f.significand num den) := by
  unfold nearest
  rw [if_neg pos.ne']
  rfl

section Rounding

variable {num den : Nat}

theorem quotient_in_unit (f : BinaryFormat) (num den : Nat) :
    ((num * 2 ^ (-f.unit num den).toNat : Nat) : ℚ) / (den * 2 ^ (f.unit num den).toNat : Nat) *
      2 ^ f.unit num den = num / den := by
  rw [two_zpow_eq_div]
  push_cast
  have front : (2 : ℚ) ^ (f.unit num den).toNat ≠ 0 := by positivity
  have back : (2 : ℚ) ^ (-f.unit num den).toNat ≠ 0 := by positivity
  by_cases zero : (den : ℚ) = 0
  · simp [zero]
  · field_simp

/-- A quotient is rounded by half of its unit at most, and no multiple of the unit is nearer. -/
theorem significand_spec (f : BinaryFormat) (num : Nat) (denPos : 0 < den) :
    |f.significand num den * (2 : ℚ) ^ f.unit num den - num / den| ≤ 2 ^ f.unit num den / 2 ∧
      ∀ n : ℤ, |f.significand num den * (2 : ℚ) ^ f.unit num den - num / den| ≤
        |n * (2 : ℚ) ^ f.unit num den - num / den| := by
  have pos : 0 < den * 2 ^ (f.unit num den).toNat := Nat.mul_pos denPos (Nat.two_pow_pos _)
  have step : (0 : ℚ) < 2 ^ f.unit num den := by positivity
  have scale (x : ℚ) : |x * 2 ^ f.unit num den - num / den| =
      |x - ((num * 2 ^ (-f.unit num den).toNat : Nat) : ℚ) / (den * 2 ^ (f.unit num den).toNat : Nat)| *
        2 ^ f.unit num den := by
    conv_lhs => rw [← f.quotient_in_unit num den, ← sub_mul, abs_mul, abs_of_pos step]
  rw [scale]
  refine ⟨?_, fun n => ?_⟩
  · have near := abs_nearestEven_sub_le (num * 2 ^ (-f.unit num den).toNat) pos
    have half := mul_le_mul_of_nonneg_right near step.le
    rwa [one_div_mul_eq_div] at half
  · rw [scale]
    exact mul_le_mul_of_nonneg_right (abs_nearestEven_sub_le_abs _ pos n) step.le

/-- Above the least unit the hidden bit stands for the greatest power of two that is not above a quotient. -/
theorem two_pow_floorLog2 (f : BinaryFormat) (above : f.unit num den ≠ f.leastExponent) :
    (2 : ℚ) ^ floorLog2 num den = (2 ^ f.fractionBits : Nat) * 2 ^ f.unit num den := by
  have exact : floorLog2 num den = f.fractionBits + f.unit num den := by
    unfold unit at above ⊢
    omega
  rw [exact, two_zpow_add]

/-- The unit suits the size of a quotient: below the next power of two the significand has no more bits than
it may, and above the least unit it has the hidden one. -/
theorem significand_fits (f : BinaryFormat) (numPos : 0 < num) (denPos : 0 < den) :
    f.significand num den ≤ 2 ^ (f.fractionBits + 1) ∧
      (2 ^ f.fractionBits ≤ f.significand num den ∨ f.unit num den = f.leastExponent) := by
  obtain ⟨low, high⟩ := floorLog2_spec numPos denPos
  have step : (0 : ℚ) < 2 ^ f.unit num den := by positivity
  obtain ⟨near, nearest⟩ := f.significand_spec num denPos
  -- A whole number of units between the quotient and the significand would be nearer.
  have above (n : Nat) (le : (num : ℚ) / den ≤ n * 2 ^ f.unit num den) : f.significand num den ≤ n := by
    by_contra beyond
    have more : (n : ℚ) + 1 ≤ f.significand num den := by exact_mod_cast Nat.lt_of_not_le beyond
    have steps := mul_le_mul_of_nonneg_right more step.le
    have closer := nearest n
    rw [Int.cast_natCast, abs_of_nonneg (by linarith), abs_of_nonneg (by linarith)] at closer
    linarith
  have below (n : Nat) (le : n * 2 ^ f.unit num den ≤ (num : ℚ) / den) : n ≤ f.significand num den := by
    by_contra beyond
    have more : (f.significand num den : ℚ) + 1 ≤ n := by exact_mod_cast Nat.lt_of_not_le beyond
    have steps := mul_le_mul_of_nonneg_right more step.le
    have closer := nearest n
    rw [Int.cast_natCast, abs_of_nonpos (by linarith), abs_of_nonpos (by linarith)] at closer
    linarith
  refine ⟨above _ ?_, ?_⟩
  · have reach : floorLog2 num den + 1 ≤ (f.fractionBits + 1 : Nat) + f.unit num den := by
      unfold unit
      omega
    calc (num : ℚ) / den ≤ 2 ^ (floorLog2 num den + 1) := high.le
      _ ≤ 2 ^ ((f.fractionBits + 1 : Nat) + f.unit num den) := zpow_le_zpow_right₀ (by norm_num) reach
      _ = (2 ^ (f.fractionBits + 1) : Nat) * 2 ^ f.unit num den := two_zpow_add _ _
  · by_cases least : f.unit num den = f.leastExponent
    · exact .inr least
    · refine .inl (below _ ?_)
      rw [← f.two_pow_floorLog2 least]
      exact low

/-- **Rounding goes to the nearest number.** None that the format holds is nearer. -/
theorem significand_nearest (numPos : 0 < num) (denPos : 0 < den) {x : ℚ} (held : f.Holds x) :
    |f.significand num den * (2 : ℚ) ^ f.unit num den - num / den| ≤ |x - num / den| := by
  obtain ⟨m, e, short, least, size⟩ := held
  obtain ⟨low, -⟩ := floorLog2_spec numPos denPos
  have quotient : (0 : ℚ) ≤ num / den := by positivity
  have nearest := (f.significand_spec num denPos).2
  -- The magnitude of a number is as near to a quotient as the number.
  have unsigned : |(|x| - num / den)| ≤ |x - num / den| := by
    have := abs_abs_sub_abs_le_abs_sub x (num / den)
    rwa [abs_of_nonneg quotient] at this
  refine le_trans ?_ unsigned
  rw [size]
  rcases le_or_gt (f.unit num den) e with coarse | fine
  · obtain ⟨more, rfl⟩ := Int.le.dest coarse
    have multiple : (m : ℚ) * 2 ^ (f.unit num den + more) = (m * 2 ^ more : ℤ) * 2 ^ f.unit num den := by
      rw [zpow_add₀ two_ne_zero, zpow_natCast]
      push_cast
      ring
    rw [multiple]
    exact nearest _
  · -- A finer unit keeps the number below the power of two that the unit was chosen by.
    have beneath : (m : ℚ) * 2 ^ e ≤ 2 ^ floorLog2 num den := by
      have reach : (f.fractionBits + 1 : Nat) + e ≤ floorLog2 num den := by
        unfold unit at fine
        omega
      calc (m : ℚ) * 2 ^ e ≤ (2 ^ (f.fractionBits + 1) : Nat) * 2 ^ e := by gcongr
        _ = 2 ^ ((f.fractionBits + 1 : Nat) + e) := (two_zpow_add _ _).symm
        _ ≤ 2 ^ floorLog2 num den := zpow_le_zpow_right₀ (by norm_num) reach
    have closer := nearest ((2 ^ f.fractionBits : Nat) : ℤ)
    rw [Int.cast_natCast, ← f.two_pow_floorLog2 (least.trans_lt fine).ne',
      abs_of_nonpos (sub_nonpos.mpr low)] at closer
    rw [abs_of_nonpos (show (m : ℚ) * 2 ^ e - num / den ≤ 0 by linarith)]
    linarith

/-- A quotient below a power of two is rounded by at most that power over twice what a significand counts. -/
theorem unit_le_of_lt (f : BinaryFormat) (numPos : 0 < num) (denPos : 0 < den) {k : ℤ}
    (small : (num : ℚ) / den < 2 ^ k) (least : f.leastExponent ≤ k - 1 - f.fractionBits) :
    f.unit num den ≤ k - 1 - f.fractionBits := by
  have below := floorLog2_lt numPos denPos small
  unfold unit
  omega

/-- **What is not too great is rounded to a number.** It is the product of its significand and its unit. -/
theorem decode_nearest (f : BinaryFormat) (negative : Bool) (numPos : 0 < num) (denPos : 0 < den)
    (wide : 2 ≤ f.exponentBits) {k : ℤ} (small : (num : ℚ) / den < 2 ^ k)
    (bounded : k < 2 ^ (f.exponentBits - 1)) :
    ∃ m e, f.decode ((if negative then f.signBit else 0) + f.nearest num den) = .finite negative m e ∧
      Datum.magnitude m e = f.significand num den * (2 : ℚ) ^ f.unit num den := by
  obtain ⟨short, hidden⟩ := f.significand_fits numPos denPos
  have below := floorLog2_lt numPos denPos small
  have least : f.leastExponent ≤ f.unit num den := le_max_right _ _
  -- Even with a carry the exponent stays below that of infinity.
  have exponents : 2 ^ f.exponentBits = 2 * 2 ^ (f.exponentBits - 1) := by
    rw [← pow_succ', Nat.sub_add_cancel (by omega)]
  have fields : (f.unit num den - f.leastExponent).toNat + 4 ≤ 2 ^ f.exponentBits := by
    have two : 2 ≤ 2 ^ (f.exponentBits - 1) := Nat.le_self_pow (by omega) 2
    have twoInt : (2 : ℤ) ≤ 2 ^ (f.exponentBits - 1) := by exact_mod_cast two
    have start : f.leastExponent = 2 - 2 ^ (f.exponentBits - 1) - f.fractionBits := by
      unfold leastExponent
      simp only [Nat.pow_eq]
      push_cast
      rfl
    zify
    rw [Int.toNat_of_nonneg (by omega), show (2 : ℤ) ^ f.exponentBits = 2 * 2 ^ (f.exponentBits - 1) by
      exact_mod_cast exponents]
    unfold unit at *
    omega
  have inside : (f.unit num den - f.leastExponent).toNat * 2 ^ f.fractionBits + f.significand num den <
      f.infinityBits := by
    have pos := Nat.two_pow_pos f.fractionBits
    have room : ((f.unit num den - f.leastExponent).toNat + 3) * 2 ^ f.fractionBits ≤ f.infinityBits := by
      rw [infinityBits_eq]
      exact Nat.mul_le_mul_right _ (by omega)
    rw [Nat.add_mul] at room
    rw [pow_succ] at short
    omega
  obtain ⟨m, e, pattern, value⟩ := decode_pattern negative short (hidden.imp_right fun same => by omega) inside
  refine ⟨m, e, ?_, ?_⟩
  · rw [f.nearest_eq numPos, Nat.min_eq_right inside.le, pattern]
  · rw [value, Int.toNat_of_nonneg (by omega), add_sub_cancel]

end Rounding

section Rational

variable {negative : Bool} {x : ℚ} {k : ℤ}

/-- The magnitude of a rational that is not too great is rounded to the nearest one, and the nearer the smaller
the rational is. The sign is kept apart. -/
theorem decode_ofRat (f : BinaryFormat) (negative : Bool) (wide : 2 ≤ f.exponentBits) (small : |x| < 2 ^ k)
    (bounded : k < 2 ^ (f.exponentBits - 1)) :
    ∃ m e, f.decode (f.ofRat negative x) = .finite negative m e ∧
      (∀ v, f.Holds v → |Datum.magnitude m e - (|x|)| ≤ |v - (|x|)|) ∧
      (f.leastExponent ≤ k - 1 - f.fractionBits →
        |Datum.magnitude m e - (|x|)| ≤ 2 ^ (k - 1 - f.fractionBits) / 2) := by
  unfold ofRat
  rw [abs_eq_natAbs_div] at small ⊢
  have denPos : 0 < x.den := x.den_pos
  rcases Nat.eq_zero_or_pos x.num.natAbs with zero | numPos
  · have none : f.nearest 0 x.den = 0 := if_pos rfl
    have finite : 0 < f.infinityBits := by
      have : 1 < 2 ^ f.exponentBits := Nat.one_lt_two_pow (by omega)
      exact Nat.mul_pos (Nat.sub_pos_of_lt this) (Nat.two_pow_pos _)
    have pattern := decode_sign negative finite
    rw [Nat.zero_div, if_pos rfl, Nat.zero_mod] at pattern
    rw [zero, none]
    refine ⟨0, f.leastExponent, pattern, ?_, ?_⟩
    · intro v _
      simp [Datum.magnitude_eq]
    · intro _
      rw [Datum.magnitude_eq, Nat.cast_zero, zero_mul, zero_div, sub_zero, abs_zero]
      positivity
  · obtain ⟨m, e, pattern, value⟩ := f.decode_nearest negative numPos denPos wide small bounded
    refine ⟨m, e, pattern, ?_, ?_⟩
    · intro v held
      rw [value]
      exact significand_nearest numPos denPos held
    · intro least
      have step : (2 : ℚ) ^ f.unit x.num.natAbs x.den ≤ 2 ^ (k - 1 - f.fractionBits) :=
        zpow_le_zpow_right₀ (by norm_num) (f.unit_le_of_lt numPos denPos small least)
      rw [value]
      exact (f.significand_spec x.num.natAbs denPos).1.trans (div_le_div_of_nonneg_right step two_pos.le)

/-- **A rational that is not too great is rounded to the nearest number**, if its sign is right. -/
theorem ofRat_spec (f : BinaryFormat) (wide : 2 ≤ f.exponentBits) (small : |x| < 2 ^ k)
    (bounded : k < 2 ^ (f.exponentBits - 1)) (sign : x ≠ 0 → negative = decide (x < 0)) :
    ∃ m e, f.decode (f.ofRat negative x) = .finite negative m e ∧
      (∀ v, f.Holds v → |(f.decode (f.ofRat negative x)).toRat - x| ≤ |v - x|) ∧
      (f.leastExponent ≤ k - 1 - f.fractionBits →
        |(f.decode (f.ofRat negative x)).toRat - x| ≤ 2 ^ (k - 1 - f.fractionBits) / 2) := by
  obtain ⟨m, e, pattern, nearest, near⟩ := f.decode_ofRat negative wide small bounded
  have lost : |(f.decode (f.ofRat negative x)).toRat - x| = |Datum.magnitude m e - (|x|)| := by
    rw [pattern, Datum.toRat]
    by_cases zero : x = 0
    · rw [zero]
      cases negative <;> simp
    · rw [sign zero]
      simp only [decide_eq_true_eq]
      exact (abs_signed_sub _ x x).1
  rw [lost]
  refine ⟨m, e, pattern, fun v held => ?_, near⟩
  rw [(abs_signed_sub 0 x v).2]
  split
  · exact nearest _ held.neg
  · exact nearest _ held

end Rational

end BinaryFormat

end Telemetry
