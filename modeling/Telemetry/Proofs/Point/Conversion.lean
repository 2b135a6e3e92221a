import Telemetry.Proofs.Binary.Arithmetic
import Telemetry.Proofs.Point.Scalar

/-!
# Numbers as scalars

A number becomes a scalar of an integer kind exactly when it is one of the integers of that kind
(`Scalar.ofBinary64?_cases`). Not every integer of 64 bits is a number of 64 bits, but one that a number was is,
so it is not rounded when the scalar is taken for a number again. Only a scalar of 32 bits may be another number:
the nearest of those (`Binary32.isNearest_ofBinary64`).
-/

namespace Telemetry

/-! ## What a kind holds -/

namespace ScalarKind

/-- A kind holds an integer. A truth value is zero or one, and a character the number of its byte. -/
def HoldsInteger : ScalarKind → ℤ → Prop
  | .int8, n => -2 ^ 7 ≤ n ∧ n ≤ 2 ^ 7 - 1
  | .uint8, n => 0 ≤ n ∧ n ≤ 2 ^ 8 - 1
  | .int16, n => -2 ^ 15 ≤ n ∧ n ≤ 2 ^ 15 - 1
  | .uint16, n => 0 ≤ n ∧ n ≤ 2 ^ 16 - 1
  | .int32, n => -2 ^ 31 ≤ n ∧ n ≤ 2 ^ 31 - 1
  | .uint32, n => 0 ≤ n ∧ n ≤ 2 ^ 32 - 1
  | .int64, n => -2 ^ 63 ≤ n ∧ n ≤ 2 ^ 63 - 1
  | .uint64, n => 0 ≤ n ∧ n ≤ 2 ^ 64 - 1
  | .bool, n => n = 0 ∨ n = 1
  | .char, n => 0 ≤ n ∧ n ≤ 255
  | .binary32, _ | .binary64, _ => False

/-- A kind other than `binary32` holds the value of a number of 64 bits: `binary64` any such value, the others
their integers. -/
def Holds (kind : ScalarKind) (p : ℚ) : Prop :=
  kind = .binary64 ∨ ∃ n, kind.HoldsInteger n ∧ p = n

variable {kind : ScalarKind} {least bound : ℤ}

theorem holdsInteger_iff (range : Scalar.integerRange? kind = some (least, bound)) (n : ℤ) :
    kind.HoldsInteger n ↔ least ≤ n ∧ n < bound := by
  cases kind <;> cases range <;> simp only [HoldsInteger] <;> omega

theorem HoldsInteger.abs_le_two_pow {n : ℤ} (held : kind.HoldsInteger n) : |n| ≤ 2 ^ 64 := by
  rw [abs_le]
  cases kind <;> simp only [HoldsInteger] at held <;> omega

/-- A rational is one of the integers of a kind if it is whole and in the range. -/
theorem holds_iff (range : Scalar.integerRange? kind = some (least, bound)) (p : ℚ) :
    kind.Holds p ↔ p.den = 1 ∧ least ≤ p.num ∧ p.num < bound := by
  have integer : kind ≠ .binary64 := by
    rintro rfl
    cases range
  constructor
  · rintro (same | ⟨n, held, rfl⟩)
    · exact absurd same integer
    · exact ⟨Rat.den_intCast n, (holdsInteger_iff range n).mp held⟩
  · rintro ⟨whole, inside⟩
    exact .inr ⟨p.num, (holdsInteger_iff range _).mpr inside, ((Rat.den_eq_one_iff p).mp whole).symm⟩

end ScalarKind

/-! ## Integers as numbers -/

namespace Binary64

theorem ofNat_eq_ofInt (n : Nat) : ofNat n = ofInt n := by
  rw [ofNat, ofInt, Int.cast_natCast]

/-- An integer that is held as a number is not rounded. -/
theorem denotes_ofInt {n : ℤ} (small : |n| ≤ 2 ^ 64) (held : BinaryFormat.double.Holds n) :
    (ofInt n).Denotes n := by
  have bounded : |(n : ℚ)| < 2 ^ (1023 : ℤ) := by
    have : |(n : ℚ)| ≤ 2 ^ 64 := by exact_mod_cast small
    exact two_pow_lt (by norm_num : 65 ≤ 1023) (this.trans_lt (by norm_num))
  have denoted := denotes_ofRat bounded
  rwa [rounded_of_holds bounded held] at denoted

end Binary64

namespace Scalar

/-- The scalar of an integer stands for that integer. -/
theorem toBinary64_ofInteger {kind : ScalarKind} {n : ℤ} (held : kind.HoldsInteger n) :
    (ofInteger kind n).toBinary64 = Binary64.ofInt n := by
  cases kind with
  | binary32 | binary64 => cases held
  | int8 | int16 | int32 | int64 =>
    obtain ⟨low, high⟩ := held
    refine congrArg Binary64.ofInt ?_
    simp [Int.bmod_def]
    omega
  | uint8 | uint16 | uint32 | uint64 =>
    obtain ⟨low, high⟩ := held
    refine (Binary64.ofNat_eq_ofInt _).trans (congrArg Binary64.ofInt ?_)
    simp
    omega
  | bool =>
    rcases held with rfl | rfl <;> rfl
  | char =>
    obtain ⟨low, high⟩ := held
    refine (Binary64.ofNat_eq_ofInt _).trans (congrArg Binary64.ofInt ?_)
    rw [toNat_ofNat_of_lt (Nat.mod_lt _ (by decide))]
    omega

variable {kind : ScalarKind} {x : Binary64}

/-- A number is compared with the range of an integer kind. -/
theorem ofBinary64?_of_range {least bound : ℤ} (range : integerRange? kind = some (least, bound))
    (finite : x.isFinite = true) :
    ofBinary64? kind x =
      if x.toRat.den = 1 ∧ least ≤ x.toRat.num ∧ x.toRat.num < bound then some (ofInteger kind x.toRat.num)
      else none := by
  cases kind <;> cases range <;> simp [ofBinary64?, finite, integerRange?]

/-- **A number becomes a scalar exactly when the kind holds it**, and the scalar stands for the same number. -/
theorem ofBinary64?_cases (exact : kind ≠ .binary32) (x : Binary64) :
    (¬ (x.isFinite = true ∧ kind.Holds x.toRat) ∧ ofBinary64? kind x = none) ∨
      ((x.isFinite = true ∧ kind.Holds x.toRat) ∧
        ∃ s, ofBinary64? kind x = some s ∧ s.toBinary64.Denotes x.toRat) := by
  by_cases finite : x.isFinite = true
  · rcases range : integerRange? kind with _ | ⟨least, bound⟩
    · -- Only the two kinds of fractions have no range.
      have whole : kind = .binary64 := by
        cases kind with
        | binary32 => exact absurd rfl exact
        | binary64 => rfl
        | _ => cases range
      rw [whole]
      refine .inr ⟨⟨finite, .inl rfl⟩, .binary64 x, ?_, Binary64.denotes_of_isFinite finite⟩
      simp [ofBinary64?, finite]
    · have taken := ofBinary64?_of_range range finite
      by_cases held : kind.Holds x.toRat
      · have inside := (ScalarKind.holds_iff range _).mp held
        have integer := (ScalarKind.holdsInteger_iff range _).mpr inside.2
        have same : x.toRat = x.toRat.num := ((Rat.den_eq_one_iff _).mp inside.1).symm
        rw [if_pos inside] at taken
        refine .inr ⟨⟨finite, held⟩, _, taken, ?_⟩
        have number : BinaryFormat.double.Holds x.toRat := (Binary64.denotes_of_isFinite finite).holds
        rw [same] at number
        rw [toBinary64_ofInteger integer, same]
        exact Binary64.denotes_ofInt integer.abs_le_two_pow number
      · rw [if_neg (held ∘ (ScalarKind.holds_iff range _).mpr)] at taken
        exact .inl ⟨fun both => held both.2, taken⟩
  · refine .inl ⟨fun both => finite both.1, ?_⟩
    simp [ofBinary64?, finite]

-- The sign of zero is lost where a kind has only one zero.
example : ofBinary64? .bool (Binary64.zero true) = some (.bool false) := by
  decide +kernel

end Scalar

/-! ## Numbers of 32 bits -/

namespace Binary32

/-- The pattern denotes a number other than an infinity. -/
def IsFinite (x : Binary32) : Prop :=
  ∃ negative m e, x.datum = .finite negative m e

/-- A number is nearest to a rational if no other is nearer. -/
def IsNearest (x : Binary32) (p : ℚ) : Prop :=
  x.IsFinite ∧ ∀ y : Binary32, y.IsFinite → |x.datum.toRat - p| ≤ |y.datum.toRat - p|

theorem datum_ofBinary64 (x : Binary64) :
    (ofBinary64 x).datum =
      BinaryFormat.single.decode (BinaryFormat.single.ofRat x.isNegative x.toRat) := by
  have narrow : BinaryFormat.single.ofRat x.isNegative x.toRat < 2 ^ 32 :=
    BinaryFormat.single.ofRat_lt x.isNegative x.toRat
  unfold datum ofBinary64
  rw [UInt32.toNat_ofNat_of_lt' narrow]

/-- **A number is narrowed to the nearest one.** -/
theorem isNearest_ofBinary64 {x : Binary64} {p : ℚ} (denoted : x.Denotes p) (small : |p| < 2 ^ (127 : ℤ)) :
    (ofBinary64 x).IsNearest p := by
  obtain ⟨m, e, pattern, nearest, -⟩ := BinaryFormat.single.ofRat_spec (by decide) small (by decide)
    denoted.isNegative_eq
  rw [← denoted.toRat, ← datum_ofBinary64] at pattern nearest
  refine ⟨⟨_, m, e, pattern⟩, ?_⟩
  rintro y ⟨negative, n, d, finite⟩
  rw [← denoted.toRat]
  exact nearest _ (BinaryFormat.holds_toRat finite)

end Binary32

/-- A number that is not too great becomes a scalar of 32 bits. -/
theorem Scalar.ofBinary64?_binary32 {x : Binary64} {p : ℚ} (denoted : x.Denotes p) (small : |p| ≤ 2 ^ 22) :
    ofBinary64? .binary32 x = some (.binary32 (Binary32.ofBinary64 x)) := by
  have reach : (2 : ℚ) ^ 22 ≤ Binary32.greatest.toBinary64.toRat := by decide +kernel
  have inside := abs_le.mp (small.trans reach)
  rw [← denoted.toRat] at inside
  unfold ofBinary64?
  rw [denoted.finite]
  exact if_pos inside

end Telemetry
