import Telemetry.Binary.Binary64
import Telemetry.Proofs.Binary.Rounding

/-!
# Arithmetic of 64-bit numbers as arithmetic of rationals

A number of 64 bits that is finite denotes a rational (`Binary64.Denotes`). Each operation on numbers that
denote rationals denotes the exact result rounded once (`Denotes.add`, `Denotes.mul`, ...), as long as that
is below `2^1023`. Of `rounded` no more needs to be known than that it is the nearest number
(`rounded_nearest`), so that it stays between numbers that are held, and how far it may be off
(`abs_rounded_sub_le`).
-/

namespace Telemetry

/-- Significands and exponents of 64 bits are bounded. -/
theorem BinaryFormat.bounds_of_decode {bits m : Nat} {negative : Bool} {e : ℤ}
    (h : double.decode bits = .finite negative m e) : m < 2 ^ 53 ∧ -1074 ≤ e ∧ e ≤ 971 := by
  have top : double.infinityBits = 2047 * 2 ^ 52 := by decide
  have start : double.leastExponent = -1074 := by decide
  have unit : double.fractionBits = 52 := rfl
  obtain ⟨-, short, least, hidden, spelled, below⟩ := fields_of_decode h
  rw [top, spelled, start, unit] at below
  rw [start] at least hidden
  rw [unit] at short hidden
  exact ⟨short, least, by omega⟩

namespace Binary64

theorem datum_round (negative : Bool) (x : ℚ) :
    (round negative x).datum = BinaryFormat.double.decode (BinaryFormat.double.ofRat negative x) := by
  have narrow : BinaryFormat.double.ofRat negative x < 2 ^ 64 := BinaryFormat.double.ofRat_lt negative x
  unfold datum round
  rw [UInt64.toNat_ofNat_of_lt' narrow]

/-! ## Rounding -/

/-- The nearest number to a rational, as a rational. -/
def rounded (x : ℚ) : ℚ :=
  (ofRat x).toRat

/-- What is denoted by a number whose sign has been read apart. -/
theorem toRat_of_datum {x : Binary64} {negative : Bool} {m : Nat} {e : Int}
    (h : x.datum = .finite negative m e) :
    x.toRat = if negative then -Datum.magnitude m e else Datum.magnitude m e := by
  rw [toRat, h]
  rfl

section Rounded

variable {x : ℚ}

/-- **A rational that is not too great is rounded to the nearest number**, and the nearer the smaller it is. -/
theorem rounded_spec {k : ℤ} (small : |x| < 2 ^ k) (bounded : k ≤ 1023) :
    (ofRat x).isFinite = true ∧
      (∀ v, BinaryFormat.double.Holds v → |rounded x - x| ≤ |v - x|) ∧
      (-1021 ≤ k → |rounded x - x| ≤ 2 ^ (k - 54)) := by
  obtain ⟨m, e, pattern, nearest, near⟩ := BinaryFormat.double.ofRat_spec (by decide) small
    (bounded.trans_lt (by decide)) fun _ : x ≠ 0 => rfl
  rw [← datum_round] at pattern nearest near
  refine ⟨by rw [ofRat, isFinite, pattern], nearest, fun least => ?_⟩
  have half : (2 : ℚ) ^ (k - 1 - 52) / 2 = 2 ^ (k - 54) := by
    rw [show k - 1 - 52 = k - 54 + 1 by ring, zpow_add_one₀ two_ne_zero,
      mul_div_cancel_right₀ _ two_ne_zero]
  rw [← half]
  apply near
  rw [show BinaryFormat.double.leastExponent = -1074 by decide,
    show (BinaryFormat.double.fractionBits : ℤ) = 52 from rfl]
  omega

/-- No number that is held is nearer to a rational than the rounded one. -/
theorem rounded_nearest (small : |x| < 2 ^ (1023 : ℤ)) {v : ℚ} (held : BinaryFormat.double.Holds v) :
    |rounded x - x| ≤ |v - x| :=
  (rounded_spec small le_rfl).2.1 v held

/-- A rational below a power of two loses no more than half of its last place. -/
theorem abs_rounded_sub_le {k : ℤ} (small : |x| < 2 ^ k) (least : -1021 ≤ k) (bounded : k ≤ 1023) :
    |rounded x - x| ≤ 2 ^ (k - 54) :=
  (rounded_spec small bounded).2.2 least

theorem rounded_of_holds (small : |x| < 2 ^ (1023 : ℤ)) (held : BinaryFormat.double.Holds x) :
    rounded x = x := by
  have near := rounded_nearest small held
  rw [sub_self, abs_zero] at near
  exact sub_eq_zero.mp (abs_nonpos_iff.mp near)

/-- Rounding does not go past a number that is held. -/
theorem rounded_le (small : |x| < 2 ^ (1023 : ℤ)) {v : ℚ} (held : BinaryFormat.double.Holds v)
    (le : x ≤ v) : rounded x ≤ v := by
  have near := rounded_nearest small held
  rw [abs_of_nonneg (sub_nonneg.mpr le)] at near
  linarith [le_abs_self (rounded x - x)]

theorem le_rounded (small : |x| < 2 ^ (1023 : ℤ)) {v : ℚ} (held : BinaryFormat.double.Holds v)
    (le : v ≤ x) : v ≤ rounded x := by
  have near := rounded_nearest small held
  rw [abs_of_nonpos (sub_nonpos.mpr le)] at near
  linarith [neg_abs_le (rounded x - x)]

end Rounded

theorem rounded_zero : rounded 0 = 0 := by
  decide +kernel

/-! ## Numbers that denote rationals -/

/-- The number is finite and is this rational. -/
structure Denotes (x : Binary64) (p : ℚ) : Prop where
  finite : x.isFinite = true
  toRat : x.toRat = p

theorem denotes_of_isFinite {x : Binary64} (finite : x.isFinite = true) : x.Denotes x.toRat :=
  ⟨finite, rfl⟩

/-- The sign of a number is the one in its pattern. -/
theorem negative_eq {x : Binary64} {negative : Bool} {m : Nat} {e : Int}
    (h : x.datum = .finite negative m e) : negative = x.isNegative :=
  (BinaryFormat.fields_of_decode h).1

theorem denotes_of_datum {x : Binary64} {negative : Bool} {m : Nat} {e : Int}
    (h : x.datum = .finite negative m e) :
    x.Denotes (if negative then -Datum.magnitude m e else Datum.magnitude m e) :=
  ⟨by rw [isFinite, h], toRat_of_datum h⟩

namespace Denotes

variable {x y : Binary64} {p q : ℚ}

theorem datum (h : x.Denotes p) : ∃ m e, x.datum = .finite x.isNegative m e ∧
    p = if x.isNegative then -Datum.magnitude m e else Datum.magnitude m e := by
  obtain ⟨finite, rfl⟩ := h
  unfold isFinite at finite
  split at finite
  · rename_i negative m e pattern
    rw [← negative_eq pattern]
    exact ⟨m, e, pattern, toRat_of_datum pattern⟩
  · cases finite

theorem holds (h : x.Denotes p) : BinaryFormat.double.Holds p := by
  obtain ⟨m, e, datum, -⟩ := h.datum
  rw [← h.toRat]
  exact BinaryFormat.holds_toRat datum

/-- Unless a number is zero its sign is that of the rational. -/
theorem isNegative_eq (h : x.Denotes p) (nonzero : p ≠ 0) : x.isNegative = decide (p < 0) := by
  obtain ⟨m, e, -, value⟩ := h.datum
  have nonneg := Datum.magnitude_nonneg m e
  cases sign : x.isNegative with
  | false =>
    rw [sign, if_neg Bool.false_ne_true] at value
    exact (decide_eq_false (by rw [value]; exact nonneg.not_gt)).symm
  | true =>
    rw [sign, if_pos rfl] at value
    have below : p ≤ 0 := by rw [value]; exact neg_nonpos.mpr nonneg
    exact (decide_eq_true (lt_of_le_of_ne below nonzero)).symm

end Denotes

/-- A rounded rational with a sign of its own denotes the nearest number, if the sign is right. -/
theorem denotes_round (negative : Bool) {x : ℚ} (small : |x| < 2 ^ (1023 : ℤ))
    (sign : x ≠ 0 → negative = decide (x < 0)) : (round negative x).Denotes (rounded x) := by
  by_cases zero : x = 0
  · subst zero
    rw [rounded_zero]
    cases negative <;> exact ⟨by decide +kernel, by decide +kernel⟩
  · rw [sign zero]
    exact ⟨(rounded_spec small le_rfl).1, rfl⟩

theorem denotes_ofRat {x : ℚ} (small : |x| < 2 ^ (1023 : ℤ)) : (ofRat x).Denotes (rounded x) :=
  denotes_round _ small fun _ => rfl

theorem round_neg (negative : Bool) (x : ℚ) : round negative (-x) = round negative x := by
  unfold round BinaryFormat.ofRat
  rw [Rat.num_neg_eq_neg_num, Int.natAbs_neg, Rat.den_neg_eq_den]

/-! ## Whole numbers -/

/-- Whole numbers of up to 53 bits are held. -/
theorem holds_intCast {n : ℤ} (short : |n| < 2 ^ 53) : BinaryFormat.double.Holds n :=
  BinaryFormat.holds_intCast (by decide) short

theorem two_pow_lt {k : ℕ} (small : k ≤ 1023) {x : ℚ} (h : |x| < 2 ^ k) : |x| < 2 ^ (1023 : ℤ) :=
  h.trans_le (by rw [← zpow_natCast]; exact zpow_le_zpow_right₀ (by norm_num) (by exact_mod_cast small))

theorem abs_intCast_lt {n : ℤ} (short : |n| < 2 ^ 53) : |(n : ℚ)| < 2 ^ (1023 : ℤ) :=
  two_pow_lt (by norm_num : 53 ≤ 1023) (by exact_mod_cast short)

theorem rounded_intCast {n : ℤ} (short : |n| < 2 ^ 53) : rounded n = n :=
  rounded_of_holds (abs_intCast_lt short) (holds_intCast short)

theorem denotes_ofNat {n : Nat} (short : n < 2 ^ 53) : (ofNat n).Denotes n := by
  have bounded : |(n : ℤ)| < 2 ^ 53 := by
    rw [abs_of_nonneg (Int.natCast_nonneg n)]
    exact_mod_cast short
  have denoted := denotes_ofRat (abs_intCast_lt bounded)
  rw [rounded_intCast bounded, Int.cast_natCast] at denoted
  exact denoted

/-! ## Operations -/

/-- Turning the sign of a pattern leaves the rest of it as it is. -/
theorem datum_neg {x : Binary64} {negative : Bool} {m : Nat} {e : Int} (h : x.datum = .finite negative m e) :
    (-x).datum = .finite (!negative) m e := by
  have bits : (-x).bits.toNat = x.bits.toNat ^^^ 2 ^ 63 := rfl
  have high : (x.bits.toNat ^^^ 2 ^ 63) / 2 ^ 63 = x.bits.toNat / 2 ^ 63 ^^^ 1 := Nat.xor_div_two_pow
  have low : (x.bits.toNat ^^^ 2 ^ 63) % 2 ^ 63 = x.bits.toNat % 2 ^ 63 := by
    rw [Nat.xor_mod_two_pow, Nat.mod_self, Nat.xor_zero]
  have sign : decide (BinaryFormat.double.signBit ≤ x.bits.toNat ^^^ 2 ^ 63) =
      !decide (BinaryFormat.double.signBit ≤ x.bits.toNat) := by
    have narrow : x.bits.toNat < 2 ^ 64 := x.bits.toNat_lt
    have top : BinaryFormat.double.signBit = 2 ^ 63 := rfl
    have cases : x.bits.toNat / 2 ^ 63 = 0 ∨ x.bits.toNat / 2 ^ 63 = 1 := by omega
    rw [top, ← decide_not, decide_eq_decide]
    rcases cases with zero | one
    · rw [zero, show 0 ^^^ 1 = 1 from rfl] at high
      omega
    · rw [one, show 1 ^^^ 1 = 0 from rfl] at high
      omega
  have rest : (x.bits.toNat ^^^ 2 ^ 63) % BinaryFormat.double.signBit =
      x.bits.toNat % BinaryFormat.double.signBit := low
  unfold datum BinaryFormat.decode at h ⊢
  rw [bits]
  dsimp only at h ⊢
  rw [sign, rest]
  split at h
  · cases h
  · split at h
    · cases h
    · rename_i finite bounded
      rw [if_neg finite, if_neg bounded]
      split at h
      · rename_i subnormal
        rw [if_pos subnormal]
        cases h
        rfl
      · rename_i normal
        rw [if_neg normal]
        cases h
        rfl

namespace Denotes

variable {x y : Binary64} {p q : ℚ}

theorem neg (h : x.Denotes p) : (-x).Denotes (-p) := by
  obtain ⟨m, e, datum, rfl⟩ := h.datum
  have negated := denotes_of_datum (datum_neg datum)
  cases sign : x.isNegative with
  | false => rwa [sign] at negated
  | true =>
    rw [if_pos rfl, neg_neg]
    rwa [sign] at negated

theorem add (hx : x.Denotes p) (hy : y.Denotes q) (small : |p + q| < 2 ^ (1023 : ℤ)) :
    (x + y).Denotes (rounded (p + q)) := by
  obtain ⟨m, e, first, -⟩ := hx.datum
  obtain ⟨n, d, second, -⟩ := hy.datum
  show (Binary64.add x y).Denotes _
  unfold Binary64.add
  rw [first, second, hx.toRat, hy.toRat]
  dsimp only
  split
  · rename_i none
    rw [none, rounded_zero]
    cases x.isNegative && y.isNegative <;> exact ⟨by decide +kernel, by decide +kernel⟩
  · exact denotes_ofRat small

theorem sub (hx : x.Denotes p) (hy : y.Denotes q) (small : |p - q| < 2 ^ (1023 : ℤ)) :
    (x - y).Denotes (rounded (p - q)) := by
  rw [sub_eq_add_neg] at small ⊢
  exact hx.add hy.neg small

/-- The sign of a product or a quotient is that of the operands. -/
theorem isNegative_bne (hx : x.Denotes p) (hy : y.Denotes q) (first : p ≠ 0) (second : q ≠ 0) :
    (x.isNegative != y.isNegative) = (decide (p < 0) != decide (q < 0)) := by
  rw [hx.isNegative_eq first, hy.isNegative_eq second]

theorem mul (hx : x.Denotes p) (hy : y.Denotes q) (small : |p * q| < 2 ^ (1023 : ℤ)) :
    (x * y).Denotes (rounded (p * q)) := by
  obtain ⟨m, e, first, -⟩ := hx.datum
  obtain ⟨n, d, second, -⟩ := hy.datum
  show (Binary64.mul x y).Denotes _
  unfold Binary64.mul
  rw [first, second, hx.toRat, hy.toRat]
  refine denotes_round _ small fun nonzero => ?_
  obtain ⟨left, right⟩ := mul_ne_zero_iff.mp nonzero
  rw [isNegative_bne hx hy left right, Bool.eq_iff_iff]
  simp only [bne_iff_ne, ne_eq, decide_eq_decide, decide_eq_true_eq, mul_neg_iff]
  grind

theorem div (hx : x.Denotes p) (hy : y.Denotes q) (some : q ≠ 0) (small : |p / q| < 2 ^ (1023 : ℤ)) :
    (x / y).Denotes (rounded (p / q)) := by
  obtain ⟨m, e, first, -⟩ := hx.datum
  obtain ⟨n, d, second, value⟩ := hy.datum
  have nonzero : n ≠ 0 := by
    rintro rfl
    apply some
    rw [value, Datum.magnitude_eq]
    simp
  show (Binary64.div x y).Denotes _
  unfold Binary64.div
  rw [first, second, hx.toRat, hy.toRat]
  dsimp only
  rw [if_neg nonzero]
  refine denotes_round _ small fun nonzero => ?_
  obtain ⟨left, -⟩ := div_ne_zero_iff.mp nonzero
  rw [isNegative_bne hx hy left some, Bool.eq_iff_iff]
  simp only [bne_iff_ne, ne_eq, decide_eq_decide, decide_eq_true_eq, div_neg_iff]
  grind

/-- A number is rounded to a whole one that is at most a half away. -/
theorem roundHalfAway (h : x.Denotes p) (small : |p| < 2 ^ 52) :
    ∃ n : ℤ, x.roundHalfAway.Denotes n ∧ |(n : ℚ) - p| ≤ 1 / 2 := by
  obtain ⟨m, e, datum, value⟩ := h.datum
  have nonneg := Datum.magnitude_nonneg m e
  have size : |p| = Datum.magnitude m e := by
    rw [value]
    split
    · rw [abs_neg, abs_of_nonneg nonneg]
    · exact abs_of_nonneg nonneg
  let whole := (Datum.magnitude m e + 1 / 2).floor
  have low : (whole : ℚ) ≤ Datum.magnitude m e + 1 / 2 := Rat.floor_le _
  have high : Datum.magnitude m e + 1 / 2 < whole + 1 := by exact_mod_cast Rat.lt_floor_add_one _
  have natural : 0 ≤ whole := Rat.le_floor_iff.mpr (by push_cast; linarith)
  have short : |whole| < 2 ^ 53 := by
    rw [abs_of_nonneg natural]
    have : (whole : ℚ) < 2 ^ 53 := by rw [size] at small; norm_num at small ⊢; linarith
    exact_mod_cast this
  have result : x.roundHalfAway = round x.isNegative whole := by
    unfold Binary64.roundHalfAway
    rw [datum]
  rw [result]
  cases sign : x.isNegative with
  | false =>
    rw [sign] at value
    refine ⟨whole, ?_, ?_⟩
    · have denoted := denotes_round false (abs_intCast_lt short) fun _ =>
        (decide_eq_false (by exact_mod_cast natural.not_gt)).symm
      rwa [rounded_intCast short] at denoted
    · rw [value, if_neg Bool.false_ne_true, abs_le]
      constructor <;> linarith
  | true =>
    -- The whole number is rounded by its size, and the sign is put back.
    rw [sign] at value
    refine ⟨-whole, ?_, ?_⟩
    · have short' : |(-whole)| < 2 ^ 53 := by rwa [abs_neg]
      have denoted := denotes_round true (abs_intCast_lt short') fun nonzero =>
        (decide_eq_true (lt_of_le_of_ne (by exact_mod_cast neg_nonpos.mpr natural) nonzero)).symm
      rwa [rounded_intCast short', Int.cast_neg, round_neg, ← Int.cast_neg] at denoted
    · rw [value, if_pos rfl, Int.cast_neg, abs_le]
      constructor <;> linarith

end Denotes

end Binary64

end Telemetry
