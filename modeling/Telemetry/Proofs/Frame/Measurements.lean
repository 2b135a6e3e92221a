import Telemetry.Proofs.Frame.Fields
import Telemetry.Proofs.Point.Quantization

/-!
# Measurements on the wire

A number under the key of a fixed-point range travels as its steps. Since a field is read back from where it
was written, what becomes of the number is a matter of the range alone: it comes back within a step of the
nearest value of the range (`Field.write_number_near`), and what came back is written with the same bits, so a
reading that is passed on any number of times does not drift (`Field.write_number_stable`).
-/

namespace Telemetry.Field

section Range

variable {key : UInt8} {r : FixedPoint}

theorem registered_of_range (range : (Registry.lookup key).encoding = .fixedPoint r) :
    Registry.lookup key ∈ Registry.points := by
  have assigned : (Registry.lookup key).isAssigned = true := by simp [Descriptor.isAssigned, range]
  exact (Registry.lookup_of_isAssigned assigned).1

theorem isGrid_of_range (range : (Registry.lookup key).encoding = .fixedPoint r) : r.IsGrid :=
  Registry.points_isGrid (registered_of_range range) range

theorem body_number (range : (Registry.lookup key).encoding = .fixedPoint r) (v : Binary64) :
    Field.body (Registry.lookup key) (.number v) = .ok [(r.quantize r.width v, r.width)] := by
  unfold Field.body
  rw [range]

/-- A number is accepted under the key of any range, and comes back as the value of its steps. -/
theorem fieldOf_number (range : (Registry.lookup key).encoding = .fixedPoint r) (v : Binary64)
    (position : Option UInt8) :
    (fieldOf (.number v) key position).IsAccepted ∧
      (fieldOf (.number v) key position).answer = .ok (.number (r.dequantize (r.quantize r.width v))) := by
  have other : key ≠ 43 := by
    rintro rfl
    cases range
  obtain ⟨accepted, -⟩ :=
    FieldWrite.isAccepted_of_body (w := fieldOf (.number v) key position) (body_number range v)
  have echo := FieldWrite.echo_fixedPoint (w := fieldOf (.number v) key position) range
  refine ⟨accepted, ?_⟩
  unfold FieldWrite.answer
  rw [FieldWrite.fault?_of_ne other, echo]
  rfl

/-- **A measurement comes back within a step.** Any number under the key of a range, infinities included, is
read back as a number of the range that is no more than a step away from the value of the range nearest to
it. What is no number is read back as the lower bound. -/
theorem write_number_near (range : (Registry.lookup key).encoding = .fixedPoint r) (v : Binary64)
    (s : BitStream) (position : Option UInt8) :
    ∃ t d, write s (.number v) key position = .ok t ∧ ReadsBack s t key position (.ok (.number d)) ∧
      d.isFinite = true ∧ r.low.toRat ≤ d.toRat ∧ d.toRat ≤ r.high.toRat ∧
      |d.toRat - r.clamped v| ≤ 1 / 10 ^ r.decimals.toNat ∧ (v.isNaN = true → d = r.low) := by
  obtain ⟨accepted, answer⟩ := fieldOf_number range v position
  obtain ⟨t, wrote, -, back⟩ := write_readsBack s accepted
  rw [answer] at back
  have grid := isGrid_of_range range
  obtain ⟨d, ⟨finite, rfl⟩, low, high, near⟩ := grid.dequantize_quantize v
  refine ⟨t, _, wrote, back, finite, low, high, near, fun none => ?_⟩
  rw [grid.quantize_of_isNaN none]
  exact Registry.dequantize_zero (registered_of_range range) range

/-- Positive infinity comes back within a hundredth of the highest temperature. -/
theorem write_number_near_infinity :
    (Registry.lookup 1).encoding = .fixedPoint ⟨.ofInt (-45), .ofInt 120, 2⟩ ∧
      ∃ t d, write .empty (.number (.infinity false)) 1 none = .ok t ∧
        ReadsBack .empty t 1 none (.ok (.number d)) ∧ |d.toRat - 120| ≤ 1 / 100 := by
  have range : (Registry.lookup 1).encoding = .fixedPoint ⟨.ofInt (-45), .ofInt 120, 2⟩ := by rfl
  obtain ⟨t, d, wrote, back, -, -, -, near, -⟩ := write_number_near range (.infinity false) .empty none
  have top : FixedPoint.clamped ⟨.ofInt (-45), .ofInt 120, 2⟩ (.infinity false) = 120 := by decide +kernel
  have step : (10 : ℚ) ^ (2 : UInt8).toNat = 100 := by decide +kernel
  rw [top, step] at near
  exact ⟨range, t, d, wrote, back, near⟩

/-- **Measurements do not drift.** Steps of a range, as many as it has, lead to a value that has these steps.
So what is read back of any number is written as the very bits that the number is written as. -/
theorem write_number_stable (range : (Registry.lookup key).encoding = .fixedPoint r) :
    (∀ n : Nat, (n : ℚ) ≤ (r.high.toRat - r.low.toRat) * 10 ^ r.decimals.toNat →
      r.quantize r.width (r.dequantize n) = n) ∧
    ∀ (v : Binary64) (s : BitStream) (position : Option UInt8),
      ∃ t d, write s (.number v) key position = .ok t ∧ ReadsBack s t key position (.ok (.number d)) ∧
        ∀ (u : BitStream) (place : Option UInt8),
          write u (.number d) key place = write u (.number v) key place := by
  have grid := isGrid_of_range range
  refine ⟨fun n inside => grid.quantize_dequantize inside, fun v s position => ?_⟩
  obtain ⟨accepted, answer⟩ := fieldOf_number range v position
  obtain ⟨t, wrote, -, back⟩ := write_readsBack s accepted
  rw [answer] at back
  refine ⟨t, _, wrote, back, fun u place => ?_⟩
  have same := grid.quantize_dequantize (grid.quantize_spec v).1
  unfold write
  rw [body_number range, body_number range, same]

/-- The highest number of steps of a temperature, and one that is no number. -/
theorem write_number_stable_temperature :
    (Registry.lookup 1).encoding = .fixedPoint ⟨.ofInt (-45), .ofInt 120, 2⟩ ∧
      FixedPoint.quantize ⟨.ofInt (-45), .ofInt 120, 2⟩ 15
        (FixedPoint.dequantize ⟨.ofInt (-45), .ofInt 120, 2⟩ 16500) = 16500 ∧
      ∃ t d, write .empty (.number .nan) 1 none = .ok t ∧ ReadsBack .empty t 1 none (.ok (.number d)) ∧
        write .empty (.number d) 1 none = .ok t := by
  have range : (Registry.lookup 1).encoding = .fixedPoint ⟨.ofInt (-45), .ofInt 120, 2⟩ := by rfl
  obtain ⟨steps, values⟩ := write_number_stable range
  obtain ⟨t, d, wrote, back, same⟩ := values .nan .empty none
  have width : FixedPoint.width ⟨.ofInt (-45), .ofInt 120, 2⟩ = 15 := by decide +kernel
  have top := steps 16500 (by decide +kernel)
  rw [width] at top
  exact ⟨range, top, t, d, wrote, back, (same .empty none).trans wrote⟩

end Range

end Telemetry.Field
