import Mathlib.Order.Bounds.Defs
import Telemetry.Proofs.Binary.Logarithm
import Telemetry.Proofs.Point.Quantization

/-!
# How many bits a range takes

The width of a range is the binary logarithm of its span, rounded to a number and then up. A span from one on is a
power of two and some last places more (`FixedPoint.IsExcess`). If few of them are lost in rounding the logarithm
(`lostPlaces`), the width is one too few for the steps of the range (`IsExcess.isCut_iff`), and nowhere else is it
(`IsExcess.isLeast_width`). `FixedPoint.width_spec` says all there is to a width.
-/

namespace Telemetry

open BinaryFormat

variable {num den k j : Nat}

theorem floorLog2_excess (numPos : 0 < num) (denPos : 0 < den) (short : j < 2 ^ 52)
    (excess : (num : ℚ) / den = 2 ^ k * (1 + j / 2 ^ 52)) : floorLog2 num den = k := by
  obtain ⟨low, high⟩ := floorLog2_spec numPos denPos
  obtain ⟨least, next⟩ := excess_bounds k short
  rw [excess] at low high
  have below : (2 : ℚ) ^ floorLog2 num den < 2 ^ ((k : ℤ) + 1) := low.trans_lt (by exact_mod_cast next)
  have above : (2 : ℚ) ^ (k : ℤ) < 2 ^ (floorLog2 num den + 1) := lt_of_le_of_lt (by exact_mod_cast least) high
  rw [zpow_lt_zpow_iff_right₀ one_lt_two] at below above
  omega

/-- The binary logarithm of a number some last places above a power of two, rounded up. -/
theorem ceilLog2_excess (numPos : 0 < num) (denPos : 0 < den) (short : j < 2 ^ 52)
    (excess : (num : ℚ) / den = 2 ^ k * (1 + j / 2 ^ 52)) :
    ceilLog2 num den = if j ≤ lostPlaces k then k else k + 1 := by
  let base := den * 2 ^ k
  have pos : 0 < base := Nat.mul_pos denPos (Nat.two_pow_pos _)
  have scaled : num * 2 ^ 52 = base * (2 ^ 52 + j) := by
    have some : (den : ℚ) ≠ 0 := by exact_mod_cast denPos.ne'
    rw [div_eq_iff some] at excess
    have : (num : ℚ) * 2 ^ 52 = den * 2 ^ k * (2 ^ 52 + j) := by
      rw [excess]
      ring
    exact_mod_cast this
  have places : (num - base) * 2 ^ 52 = base * j := by
    rw [Nat.sub_mul, scaled, Nat.mul_add, Nat.add_sub_cancel_left]
  have left : (num - base) * 2 ^ 53 * 10000000000000000 = base * (j * 20000000000000000) := by
    calc (num - base) * 2 ^ 53 * 10000000000000000 = (num - base) * 2 ^ 52 * 20000000000000000 := by ring
      _ = base * (j * 20000000000000000) := by rw [places, Nat.mul_assoc]
  have lost : (num - base) * 2 ^ 53 * 10000000000000000 ≤ base * 2 ^ k.log2 * 6931471805599453 ↔
      j ≤ lostPlaces k := by
    rw [left, Nat.mul_assoc base, Nat.mul_le_mul_left_iff pos, lostPlaces, Nat.le_div_iff_mul_le (by decide)]
  unfold ceilLog2
  dsimp only
  rw [floorLog2_excess numPos denPos short excess, Int.toNat_natCast]
  exact if_congr lost rfl rfl

namespace FixedPoint

variable {r : FixedPoint}

/-- The counts of bits that have room for every step of a range, the last one included. -/
def counts (r : FixedPoint) : Set Nat :=
  {bits | r.span.toRat ≤ 2 ^ bits}

/-- A range has more steps than a power of two, and yet its rounded binary logarithm is that of the power. -/
def IsCut (r : FixedPoint) : Prop :=
  ∃ k : Nat, 2 ^ k < r.span.toRat ∧ double.Nearest (binaryLog r.span.toRat) k

theorem width_eq (finite : r.span.isFinite = true) :
    r.width = if r.span.toRat ≤ 1 then 0 else ceilLog2 r.span.toRat.num.natAbs r.span.toRat.den := by
  have denoted := Binary64.denotes_of_isFinite finite
  have one : (Binary64.ofNat 1).Denotes 1 := by exact_mod_cast Binary64.denotes_ofNat (by decide : 1 < 2 ^ 53)
  obtain ⟨m, e, datum, -⟩ := denoted.datum
  have small : r.span.le (Binary64.ofNat 1) = decide (r.span.toRat ≤ 1) := by
    obtain ⟨n, d, unit, -⟩ := one.datum
    unfold Binary64.le Binary64.isNaN
    rw [Binary64.lt_eq_of_denotes one denoted, datum, unit]
    simp only [Bool.not_false, Bool.true_and, ← decide_not, not_lt]
  unfold width
  rw [small, datum]
  simp only [decide_eq_true_eq]

/-- A span is some last places above a power of two. -/
structure IsExcess (r : FixedPoint) (k j : Nat) : Prop where
  short : j < 2 ^ 52
  few : k.log2 ≤ 9
  span_eq : r.span.toRat = 2 ^ k * (1 + j / 2 ^ 52)

/-- The greatest power of two that is not above a span is not beyond the exponents. -/
theorem log2_le_of_span (finite : r.span.isFinite = true) {k : Nat} (low : 2 ^ k ≤ r.span.toRat) : k.log2 ≤ 9 := by
  have denoted := Binary64.denotes_of_isFinite finite
  have low : (2 : ℚ) ^ (k : ℤ) ≤ r.span.toRat := by exact_mod_cast low
  have bounded : (k : ℤ) < 1024 := (zpow_lt_zpow_iff_right₀ one_lt_two).mp (low.trans_lt denoted.lt_two_pow)
  rcases Nat.eq_zero_or_pos k with rfl | pos
  · decide
  · have : k.log2 < 10 := (Nat.log2_lt pos.ne').mpr (by omega)
    omega

theorem exists_excess (finite : r.span.isFinite = true) (one_le : 1 ≤ r.span.toRat) : ∃ k j, r.IsExcess k j := by
  obtain ⟨k, j, short, span⟩ := (Binary64.denotes_of_isFinite finite).holds.exists_excess one_le
  refine ⟨k, j, short, ?_, span⟩
  apply log2_le_of_span finite
  rw [span]
  exact (excess_bounds k short).1

namespace IsExcess

variable {k j : Nat} (excess : r.IsExcess k j)

include excess

theorem binaryLog_span : binaryLog r.span.toRat = k + logExcess j := by
  rw [excess.span_eq, binaryLog_excess]

theorem width_of_excess (finite : r.span.isFinite = true) (above : 1 < r.span.toRat) :
    r.width = if j ≤ lostPlaces k then k else k + 1 := by
  have pos : 0 < r.span.toRat := one_pos.trans above
  have numPos : 0 < r.span.toRat.num.natAbs := Int.natAbs_pos.mpr (Rat.num_pos.mpr pos).ne'
  rw [width_eq finite, if_neg above.not_ge]
  apply ceilLog2_excess numPos r.span.toRat.den_pos excess.short
  rw [← abs_eq_natAbs_div, abs_of_pos pos, excess.span_eq]

/-- The next power of two is needed as soon as there is an excess. -/
theorem isLeast_counts : IsLeast r.counts (if j = 0 then k else k + 1) := by
  obtain ⟨low, high⟩ := excess_bounds k excess.short
  rw [← excess.span_eq] at low high
  have least (bits : Nat) (room : bits ∈ r.counts) : k ≤ bits := by
    have : (2 : ℚ) ^ k ≤ 2 ^ bits := low.trans room
    exact (pow_le_pow_iff_right₀ one_lt_two).mp this
  split
  · rename_i none
    refine ⟨?_, fun bits room => least bits room⟩
    show r.span.toRat ≤ 2 ^ k
    rw [excess.span_eq, none]
    simp
  · rename_i some
    refine ⟨high.le, ?_⟩
    intro bits room
    have above := lt_excess k (Nat.pos_of_ne_zero some)
    rw [← excess.span_eq] at above
    have : (2 : ℚ) ^ k < 2 ^ bits := above.trans_le room
    exact (pow_lt_pow_iff_right₀ one_lt_two).mp this

/-- A span is cut if it is few last places above a power of two. -/
theorem isCut_iff : r.IsCut ↔ 0 < j ∧ j ≤ lostPlaces k := by
  obtain ⟨-, high⟩ := excess_bounds k excess.short
  unfold IsCut
  rw [excess.binaryLog_span, excess.span_eq]
  constructor
  · rintro ⟨n, beyond, nearest⟩
    rcases le_or_gt j (lostPlaces k) with lost | kept
    · have same : n = k := by exact_mod_cast nearest_of_lost excess.few lost nearest
      refine ⟨?_, lost⟩
      by_contra none
      obtain rfl : j = 0 := by omega
      simp [same] at beyond
    · -- The logarithm would be that of the next power, which the span does not exceed.
      obtain ⟨more, -⟩ := nearest_of_kept excess.few excess.short kept nearest
      have next : k + 1 ≤ n := by exact_mod_cast more
      have power : (2 : ℚ) ^ (k + 1) ≤ 2 ^ n := pow_le_pow_right₀ one_le_two next
      linarith
  · rintro ⟨some, lost⟩
    obtain ⟨log, nearest⟩ := double.exists_nearest (k + logExcess j)
    obtain rfl := nearest_of_lost excess.few lost nearest
    exact ⟨k, lt_excess k some, nearest⟩

/-- The width is the logarithm, rounded twice. -/
theorem width_eq_ceil (finite : r.span.isFinite = true) (above : 1 < r.span.toRat) {log : ℚ}
    (nearest : double.Nearest (binaryLog r.span.toRat) log) : (r.width : ℤ) = ⌈log⌉ := by
  rw [excess.width_of_excess finite above]
  rw [excess.binaryLog_span] at nearest
  split
  · rename_i lost
    rw [nearest_of_lost excess.few lost nearest, Int.ceil_natCast]
  · rename_i kept
    obtain ⟨low, high⟩ := nearest_of_kept excess.few excess.short (not_le.mp kept) nearest
    symm
    rw [Int.ceil_eq_iff]
    push_cast
    constructor <;> linarith

/-- Unless a span is cut its width is the least that is enough, and otherwise the next one is. -/
theorem isLeast_width (finite : r.span.isFinite = true) (above : 1 < r.span.toRat) :
    (¬ r.IsCut → IsLeast r.counts r.width) ∧ (r.IsCut → IsLeast r.counts (r.width + 1)) := by
  have least := excess.isLeast_counts
  rw [excess.isCut_iff, excess.width_of_excess finite above]
  constructor
  · intro kept
    by_cases none : j = 0
    · rw [if_pos none] at least
      rwa [if_pos (by omega)]
    · rw [if_neg none] at least
      rwa [if_neg (by omega)]
  · rintro ⟨some, lost⟩
    rw [if_neg some.ne'] at least
    rwa [if_pos lost]

end IsExcess

theorem IsCut.one_lt (cut : r.IsCut) : 1 < r.span.toRat := by
  obtain ⟨k, beyond, -⟩ := cut
  exact (one_le_pow₀ one_le_two).trans_lt beyond

/-- The spans that are cut, by the last places that they are above a power of two. -/
theorem isCut_iff_places (finite : r.span.isFinite = true) :
    r.IsCut ↔ ∃ k j : Nat, r.span.toRat = 2 ^ k * (1 + j / 2 ^ 52) ∧ 0 < j ∧
      (j : ℝ) ≤ 2 ^ k.log2 * Real.log 2 / 2 := by
  have places {k : Nat} (few : k.log2 ≤ 9) (j : Nat) :
      j ≤ lostPlaces k ↔ (j : ℝ) ≤ 2 ^ k.log2 * Real.log 2 / 2 := by
    rw [lostPlaces_eq few, Nat.le_floor_iff]
    have := Real.log_pos one_lt_two
    positivity
  constructor
  · intro cut
    obtain ⟨k, j, excess⟩ := exists_excess finite cut.one_lt.le
    obtain ⟨some, lost⟩ := excess.isCut_iff.mp cut
    exact ⟨k, j, excess.span_eq, some, (places excess.few j).mp lost⟩
  · rintro ⟨k, j, span, some, lost⟩
    have few : k.log2 ≤ 9 := by
      apply log2_le_of_span finite
      rw [span]
      exact (lt_excess k some).le
    have lost := (places few j).mpr lost
    have short : j < 2 ^ 52 := by
      have power : 2 ^ k.log2 ≤ 2 ^ 9 := Nat.pow_le_pow_right (by decide) few
      have bound := (lostPlaces_bounds few).1
      omega
    exact (IsExcess.mk short few span).isCut_iff.mpr ⟨some, lost⟩

/--
**How many bits a range takes.** None if there is but one step. Otherwise the binary logarithm of the steps,
rounded to the nearest number and then up. These are the fewest bits that have room for every step, unless the
rounding cuts off what exceeds a power of two, when they are one too few. That happens just above `2^k`, for as
many last places as half of `2^e ln 2`, with `2^e` the greatest power of two that is not above `k`.
-/
theorem width_spec (r : FixedPoint) (finite : r.span.isFinite = true) :
    let span := r.span.toRat
    (span ≤ 1 → r.width = 0) ∧
      (1 < span → (∃ log, double.Nearest (binaryLog span) log) ∧
        ∀ log, double.Nearest (binaryLog span) log → (r.width : ℤ) = ⌈log⌉) ∧
      (¬ r.IsCut → IsLeast r.counts r.width) ∧
      (r.IsCut → IsLeast r.counts (r.width + 1)) ∧
      (r.IsCut ↔ ∃ k j : Nat, span = 2 ^ k * (1 + j / 2 ^ 52) ∧ 0 < j ∧
        (j : ℝ) ≤ 2 ^ k.log2 * Real.log 2 / 2) := by
  intro span
  rcases le_or_gt span 1 with le | above
  · have none : r.width = 0 := by rw [width_eq finite, if_pos le]
    have least : IsLeast r.counts 0 := by
      refine ⟨?_, fun bits _ => Nat.zero_le bits⟩
      show r.span.toRat ≤ 2 ^ 0
      rwa [pow_zero]
    refine ⟨fun _ => none, fun above => absurd above le.not_gt, ?_, ?_, isCut_iff_places finite⟩
    · intro _
      rwa [none]
    · intro cut
      exact absurd cut.one_lt le.not_gt
  · obtain ⟨k, j, excess⟩ := exists_excess finite above.le
    obtain ⟨whole, cut⟩ := excess.isLeast_width finite above
    refine ⟨fun le => absurd above le.not_gt, ?_, whole, cut, isCut_iff_places finite⟩
    intro _
    exact ⟨double.exists_nearest _, fun log nearest => excess.width_eq_ceil finite above nearest⟩

/-- From zero to the number behind 65536 there are more steps than 16 bits have room for, but their logarithm is
rounded to 16. -/
theorem width_spec_cut :
    let r : FixedPoint := ⟨⟨0⟩, ⟨0x40F0000000000001⟩, 0⟩
    r.span.isFinite = true ∧ r.width = 16 ∧ IsLeast r.counts 17 ∧
      ∃ log, double.Nearest (binaryLog r.span.toRat) log ∧ ⌈log⌉ = 16 := by
  intro r
  have finite : r.span.isFinite = true := by decide +kernel
  have width : r.width = 16 := by decide +kernel
  obtain ⟨-, rounded, -, cut, places⟩ := width_spec r finite
  obtain ⟨⟨log, nearest⟩, ceil⟩ := rounded (by decide +kernel)
  have one : r.IsCut := by
    refine places.mpr ⟨16, 1, by decide +kernel, one_pos, ?_⟩
    have four : Nat.log2 16 = 4 := by decide
    have two := Real.log_two_gt_d9
    rw [four]
    norm_num
    linarith
  have least := cut one
  have exact := ceil log nearest
  rw [width] at least exact
  exact ⟨finite, width, least, log, nearest, exact.symm⟩

/-- So the width of a range is not always enough for its steps. -/
theorem width_one_too_few :
    let r : FixedPoint := ⟨⟨0⟩, ⟨0x40F0000000000001⟩, 0⟩
    r.low.isFinite = true ∧ r.high.isFinite = true ∧ r.low.lt r.high = true ∧ r.span.isFinite = true ∧
      r.width = 16 ∧ 2 ^ 16 < r.span.toRat ∧ ¬ IsLeast r.counts r.width := by
  intro r
  have width : r.width = 16 := by decide +kernel
  have beyond : 2 ^ 16 < r.span.toRat := by decide +kernel
  refine ⟨by decide +kernel, by decide +kernel, by decide +kernel, by decide +kernel, width, beyond, ?_⟩
  rw [width]
  intro least
  have room : r.span.toRat ≤ 2 ^ 16 := least.1
  exact absurd beyond room.not_gt

end FixedPoint

end Telemetry
