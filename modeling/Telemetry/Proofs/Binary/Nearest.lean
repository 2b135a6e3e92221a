import Mathlib.Algebra.Order.Archimedean.Real.Basic
import Mathlib.Data.Int.Interval
import Mathlib.Data.Set.Finite.Lemmas
import Telemetry.Proofs.Binary.Arithmetic

/-!
# Numbers nearest to a real

A function that is not rational, such as a logarithm, is rounded to a number that is nearest to its value
(`BinaryFormat.Nearest`). There always is one, as numbers are multiples of the least of them
(`exists_nearest`). Behind a whole number the numbers of 64 bits go on by its last place, so that what exceeds
it by less than half of that is rounded to it (`Nearest.eq_natCast`), and what exceeds it by more is not
(`Nearest.natCast_lt`).
-/

namespace Telemetry

namespace BinaryFormat

variable {f : BinaryFormat} {x : ℚ} {y : ℝ}

/-- A number that a format holds is nearest to a real if none that it holds is nearer. -/
structure Nearest (f : BinaryFormat) (y : ℝ) (x : ℚ) : Prop where
  held : f.Holds x
  nearest : ∀ v, f.Holds v → |(x : ℝ) - y| ≤ |(v : ℝ) - y|

/-- A multiple of a power of two is one of each lesser power. -/
theorem exists_multiple_of_le (m : Nat) {least e : ℤ} (le : least ≤ e) :
    ∃ n : Nat, (m : ℚ) * 2 ^ e = n * 2 ^ least := by
  obtain ⟨more, rfl⟩ := Int.le.dest le
  refine ⟨m * 2 ^ more, ?_⟩
  rw [zpow_add₀ two_ne_zero, zpow_natCast]
  push_cast
  ring

/-- All numbers are multiples of the least one. -/
theorem Holds.exists_multiple (held : f.Holds x) : ∃ n : ℤ, x = n * 2 ^ f.leastExponent := by
  obtain ⟨m, e, -, least, size⟩ := held
  obtain ⟨n, same⟩ := exists_multiple_of_le m least
  rw [same] at size
  rcases abs_choice x with plus | minus
  · exact ⟨n, by rw [← plus, size, Int.cast_natCast]⟩
  · refine ⟨-n, ?_⟩
    rw [minus] at size
    rw [Int.cast_neg, Int.cast_natCast, neg_mul, ← size, neg_neg]

/-- Numbers from a power of two on are multiples of its last place. -/
theorem Holds.exists_place (held : f.Holds x) {k : ℤ} (above : 2 ^ k ≤ x) :
    ∃ n : Nat, x = n * 2 ^ (k - f.fractionBits) := by
  obtain ⟨m, e, short, -, size⟩ := held
  have pos : (0 : ℚ) < 2 ^ k := by positivity
  rw [abs_of_pos (pos.trans_le above)] at size
  have coarse : k - f.fractionBits ≤ e := by
    by_contra fine
    have reach : ((f.fractionBits + 1 : Nat) : ℤ) + e ≤ k := by push_cast; omega
    have below : x < 2 ^ k := by
      calc x = m * 2 ^ e := size
        _ < (2 ^ (f.fractionBits + 1) : Nat) * 2 ^ e := by gcongr
        _ = 2 ^ (((f.fractionBits + 1 : Nat) : ℤ) + e) := (two_zpow_add _ _).symm
        _ ≤ 2 ^ k := zpow_le_zpow_right₀ (by norm_num) reach
    exact above.not_gt below
  rw [size]
  exact exists_multiple_of_le m coarse

/-- The whole numbers `n` of which `n` units are within some distance of a real are not many. -/
theorem finite_near {unit : ℝ} (pos : 0 < unit) (y distance : ℝ) :
    {n : ℤ | |n * unit - y| ≤ distance}.Finite := by
  refine (Set.finite_Icc ⌊(y - distance) / unit⌋ ⌈(y + distance) / unit⌉).subset ?_
  intro n near
  obtain ⟨low, high⟩ := abs_le.mp (Set.mem_ofPred.mp near)
  constructor
  · have : (y - distance) / unit ≤ n := by
      rw [div_le_iff₀ pos]
      linarith
    exact_mod_cast (Int.floor_le _).trans this
  · have : (n : ℝ) ≤ (y + distance) / unit := by
      rw [le_div_iff₀ pos]
      linarith
    exact_mod_cast this.trans (Int.le_ceil _)

theorem holds_zero (f : BinaryFormat) : f.Holds 0 :=
  ⟨0, f.leastExponent, Nat.two_pow_pos _, le_rfl, by simp⟩

/-- **Every real has a nearest number.** -/
theorem exists_nearest (f : BinaryFormat) (y : ℝ) : ∃ x, f.Nearest y x := by
  let unit : ℚ := 2 ^ f.leastExponent
  have pos : (0 : ℝ) < (unit : ℝ) := by
    have : 0 < unit := by positivity
    exact_mod_cast this
  -- Only numbers that are no farther away than zero are of interest, and they are few.
  let near : Set ℤ := {n | f.Holds (n * unit) ∧ |n * (unit : ℝ) - y| ≤ |y|}
  have few : near.Finite := (finite_near pos y |y|).subset fun _ close => close.2
  have some : near.Nonempty := by
    refine ⟨0, ?_, ?_⟩
    · rw [Int.cast_zero, zero_mul]
      exact f.holds_zero
    · rw [Int.cast_zero, zero_mul, zero_sub, abs_neg]
  obtain ⟨n, ⟨held, close⟩, least⟩ :=
    Set.exists_min_image near (fun n => |n * (unit : ℝ) - y|) few some
  refine ⟨n * unit, held, ?_⟩
  intro v heldV
  obtain ⟨k, multiple⟩ := heldV.exists_multiple
  have multiple : v = k * unit := multiple
  subst multiple
  rw [Rat.cast_mul, Rat.cast_mul, Rat.cast_intCast, Rat.cast_intCast]
  rcases le_or_gt |(k : ℝ) * (unit : ℝ) - y| |y| with inside | outside
  · exact least k ⟨heldV, inside⟩
  · exact close.trans outside.le

/-- The nearest number is not beyond any number. -/
theorem Nearest.le (h : f.Nearest y x) {v : ℚ} (held : f.Holds v) (above : y ≤ v) : x ≤ v := by
  have near := h.nearest v held
  rw [abs_of_nonneg (sub_nonneg.mpr above)] at near
  have : (x : ℝ) ≤ v := by linarith [le_abs_self ((x : ℝ) - y)]
  exact_mod_cast this

theorem Nearest.ge (h : f.Nearest y x) {v : ℚ} (held : f.Holds v) (below : (v : ℝ) ≤ y) : v ≤ x := by
  have near := h.nearest v held
  rw [abs_of_nonpos (sub_nonpos.mpr below)] at near
  have : (v : ℝ) ≤ x := by linarith [neg_abs_le ((x : ℝ) - y)]
  exact_mod_cast this

/-! ## Behind a whole number -/

section Double

variable {k : Nat}

/-- The last place of a whole number of 64 bits, if it is not too great. -/
def place (k : Nat) : ℚ :=
  2 ^ ((k.log2 : ℤ) - 52)

theorem place_pos (k : Nat) : 0 < place k := by
  unfold place
  positivity

/-- A whole number of up to 52 bits is a multiple of its last place, and so is the number behind it. -/
theorem natCast_eq_mul_place (few : k.log2 < 52) :
    (k : ℚ) = (k * 2 ^ (52 - k.log2) : Nat) * place k ∧ k * 2 ^ (52 - k.log2) + 1 < 2 ^ 53 := by
  constructor
  · have split : (2 : ℚ) ^ (52 - k.log2) * place k = 1 := by
      have exponents : ((52 - k.log2 : Nat) : ℤ) + (k.log2 - 52) = 0 := by omega
      rw [place, ← zpow_natCast, ← zpow_add₀ two_ne_zero, exponents, zpow_zero]
    rw [Nat.cast_mul, Nat.cast_pow, Nat.cast_ofNat, mul_assoc, split, mul_one]
  · have below : k + 1 ≤ 2 ^ (k.log2 + 1) := Nat.lt_log2_self
    have parts : 2 ^ (k.log2 + 1) * 2 ^ (52 - k.log2) = 2 ^ 53 := by
      rw [← Nat.pow_add]
      congr 1
      omega
    have two : 1 < 2 ^ (52 - k.log2) := Nat.one_lt_two_pow (by omega)
    have scaled := Nat.mul_le_mul_right (2 ^ (52 - k.log2)) below
    rw [parts, Nat.add_mul, Nat.one_mul] at scaled
    omega

theorem holds_mul_place {n : Nat} (short : n < 2 ^ 53) (k : Nat) : double.Holds (n * place k) := by
  refine ⟨n, k.log2 - 52, short, ?_, ?_⟩
  · rw [show double.leastExponent = -1074 by decide]
    omega
  · rw [place]
    exact abs_of_nonneg (by positivity)

theorem holds_natCast (few : k.log2 < 52) : double.Holds k := by
  obtain ⟨same, short⟩ := natCast_eq_mul_place few
  rw [same]
  exact holds_mul_place (by omega) k

/-- A whole number has a next one at its last place. -/
theorem holds_next (few : k.log2 < 52) : double.Holds (k + place k) := by
  obtain ⟨same, short⟩ := natCast_eq_mul_place few
  have next := holds_mul_place short k
  rw [Nat.cast_add, Nat.cast_one, add_mul, one_mul, ← same] at next
  exact next

/-- Nothing lies between a whole number other than zero and the next one. -/
theorem Holds.next_le (held : double.Holds x) (some : k ≠ 0) (few : k.log2 < 52) (above : k < x) :
    k + place k ≤ x := by
  obtain ⟨same, -⟩ := natCast_eq_mul_place few
  have power : (2 : ℚ) ^ (k.log2 : ℤ) ≤ k := by exact_mod_cast Nat.log2_self_le some
  obtain ⟨n, multiple⟩ := held.exists_place (power.trans above.le)
  have pos := place_pos k
  have multiple : x = n * place k := multiple
  rw [same, multiple] at above
  have more : k * 2 ^ (52 - k.log2) + 1 ≤ n := by exact_mod_cast lt_of_mul_lt_mul_right above pos.le
  have more : ((k * 2 ^ (52 - k.log2) : Nat) : ℚ) + 1 ≤ n := by exact_mod_cast more
  calc (k : ℚ) + place k = ((k * 2 ^ (52 - k.log2) : Nat) + 1) * place k := by rw [add_mul, one_mul, ← same]
    _ ≤ n * place k := mul_le_mul_of_nonneg_right more pos.le
    _ = x := multiple.symm

/-- **What exceeds a whole number by less than half of its last place is rounded to it.** -/
theorem Nearest.eq_natCast (h : double.Nearest y x) (some : k ≠ 0) (few : k.log2 < 52) (above : (k : ℝ) ≤ y)
    (close : y < k + (place k : ℝ) / 2) : x = k := by
  have held := holds_natCast few
  have low : (k : ℚ) ≤ x := h.ge held (by exact_mod_cast above)
  by_contra other
  have next : (k : ℚ) + place k ≤ x := h.held.next_le some few (lt_of_le_of_ne low (Ne.symm other))
  have next : (k : ℝ) + place k ≤ x := by exact_mod_cast next
  have near := h.nearest k held
  push_cast at near
  rw [abs_of_nonneg (by linarith), abs_of_nonpos (by linarith)] at near
  linarith

/-- **What exceeds a whole number by more is not rounded to it**, even if it is zero. -/
theorem Nearest.natCast_lt (h : double.Nearest y x) (few : k.log2 < 52) (far : (k : ℝ) + (place k : ℝ) / 2 < y) :
    (k : ℚ) < x := by
  have pos : (0 : ℝ) < place k := by exact_mod_cast place_pos k
  have low : (k : ℚ) ≤ x := h.ge (holds_natCast few) (by push_cast; linarith)
  refine lt_of_le_of_ne low ?_
  rintro rfl
  have near := h.nearest _ (holds_next few)
  push_cast at near
  rw [abs_of_nonpos (by linarith)] at near
  rcases abs_choice ((k : ℝ) + place k - y) with plus | minus
  · rw [plus] at near
    linarith
  · rw [minus] at near
    linarith

end Double

end BinaryFormat

end Telemetry
