import Telemetry.Proofs.Frame.Keys
import Telemetry.Proofs.Frame.Measurements
import Telemetry.Proofs.Point.Conversion

/-!
# Fields in other forms

A raw point takes a number in place of a scalar if its kind holds that number, and it comes back as an equal one
(`Field.write_number_exact`). In the other direction a field may be read as a scalar of a chosen kind. Whether that
is refused depends on the encoding of its point alone; if it is not, it comes to the same as reading the field
plainly (`Field.readAs_agrees`). All that could go wrong behind that check is a number too great for 32 bits, but
even steps that a range does not have lead to a small one.
-/

namespace Telemetry

/-- A point with this encoding is read as this kind: a range as a number of either format, a raw point as its own
kind, a text as none. -/
def Encoding.Matches : Encoding → ScalarKind → Prop
  | .fixedPoint _, target => target = .binary32 ∨ target = .binary64
  | .raw kind, target => target = kind
  | .unassigned, _ | .text, _ => False

/-- A scalar is a number in one of the two formats: the number itself, or in 32 bits the nearest to it. -/
def Binary64.IsAs (x : Binary64) (target : ScalarKind) (a : Scalar) : Prop :=
  (target = .binary64 ∧ a = .binary64 x) ∨
    (target = .binary32 ∧ ∃ y, a = .binary32 y ∧ y = Binary32.ofBinary64 x ∧ y.IsNearest x.toRat)

namespace Field

/-! ## Numbers for raw points -/

section Numbers

variable {key : UInt8} {kind : ScalarKind} {v : Binary64} {a : Scalar}

/-- A number is written as the scalar that stands for it. -/
theorem write_number_of_some (slot : (Registry.lookup key).encoding = .raw kind)
    (taken : Scalar.ofBinary64? kind v = some a) (s : BitStream) (position : Option UInt8) :
    write s (.number v) key position = write s (.scalar a) key position := by
  have same : Field.body (Registry.lookup key) (.number v) = Field.body (Registry.lookup key) (.scalar a) := by
    rw [body_scalar slot (Scalar.kind_ofBinary64? taken).2]
    unfold Field.body
    rw [slot]
    simp only [taken]
  unfold write
  rw [same]

theorem write_number_of_none (slot : (Registry.lookup key).encoding = .raw kind)
    (refused : Scalar.ofBinary64? kind v = none) (s : BitStream) (position : Option UInt8) :
    write s (.number v) key position = .error (.outOfRange (Registry.lookup key).label v) := by
  rw [write_error_iff]
  unfold Field.body
  rw [slot]
  simp only [refused]

/-- The code of a fault is the number it was given as. -/
theorem toRat_eq_toBits (slot : (Registry.lookup 43).encoding = .raw kind) (same : a.kind = kind)
    (denoted : a.toBinary64.Denotes v.toRat) : v.toRat = a.toBits ∧ a.toBits < 256 := by
  have byte : Encoding.raw .uint8 = .raw kind := slot
  cases byte
  cases a with
  | uint8 code =>
    have number : (Binary64.ofNat code.toNat).Denotes code.toNat :=
      Binary64.denotes_ofNat (code.toNat_lt.trans (by decide))
    exact ⟨denoted.toRat.symm.trans number.toRat, code.toNat_lt⟩
  | _ => cases same

/-- **A raw point takes the numbers that its kind holds.** Of the kinds other than that of 32-bit numbers each
takes a number exactly if it is finite and the kind holds it, as a scalar of this kind that stands for the same
number. So a number written under the key of such a point is refused as out of range, or read back as an equal
one, or as the fault whose code it is if it is not zero under key 43. -/
theorem write_number_exact (kind : ScalarKind) (exact : kind ≠ .binary32) (v : Binary64) :
    ((Scalar.ofBinary64? kind v).isSome ↔ v.isFinite = true ∧ kind.Holds v.toRat) ∧
    (∀ a, Scalar.ofBinary64? kind v = some a → a.kind = kind ∧ a.toBinary64.Denotes v.toRat) ∧
    ∀ key, (Registry.lookup key).encoding = .raw kind → ∀ (s : BitStream) (position : Option UInt8),
      (¬ (v.isFinite = true ∧ kind.Holds v.toRat) →
        write s (.number v) key position = .error (.outOfRange (Registry.lookup key).label v)) ∧
      (v.isFinite = true ∧ kind.Holds v.toRat → ∃ t, write s (.number v) key position = .ok t ∧
        ((key = 43 → v.toRat = 0) → ∃ a, a.kind = kind ∧ a.toBinary64.Denotes v.toRat ∧
          ReadsBack s t key position (.ok (.scalar a))) ∧
        (key = 43 → v.toRat ≠ 0 → ∃ code : UInt8, v.toRat = code.toNat ∧
          ReadsBack s t key position (.error (.deviceFault code)))) := by
  rcases Scalar.ofBinary64?_cases exact v with ⟨apart, refused⟩ | ⟨held, a, taken, denoted⟩
  · refine ⟨?_, ?_, ?_⟩
    · rw [refused]
      exact iff_of_false Bool.false_ne_true apart
    · intro a taken
      rw [refused] at taken
      cases taken
    · intro key slot s position
      exact ⟨fun _ => write_number_of_none slot refused s position, fun held => absurd held apart⟩
  · obtain ⟨same, width⟩ := Scalar.kind_ofBinary64? taken
    refine ⟨?_, ?_, ?_⟩
    · rw [taken]
      exact iff_of_true rfl held
    · intro b other
      cases taken.symm.trans other
      exact ⟨same, denoted⟩
    · intro key slot s position
      refine ⟨fun apart => absurd held apart, fun _ => ?_⟩
      obtain ⟨accepted, answer⟩ := fieldOf_scalar slot same width position
      obtain ⟨t, wrote, -, back⟩ := write_readsBack s accepted
      rw [answer] at back
      refine ⟨t, (write_number_of_some slot taken s position).trans wrote, ?_, ?_⟩
      · intro zero
        refine ⟨a, same, denoted, ?_⟩
        have plain : ¬ (key = 43 ∧ a.toBits ≠ 0) := by
          rintro ⟨rfl, some⟩
          obtain ⟨value, -⟩ := toRat_eq_toBits slot same denoted
          rw [zero rfl] at value
          exact some (by exact_mod_cast value.symm)
        rwa [if_neg plain] at back
      · rintro rfl nonzero
        obtain ⟨value, byte⟩ := toRat_eq_toBits slot same denoted
        have some : a.toBits ≠ 0 := by
          intro none
          rw [none] at value
          exact nonzero value
        rw [if_pos ⟨rfl, some⟩] at back
        exact ⟨_, by rw [value, UInt8.toNat_ofNat_of_lt' byte], back⟩

/-- Of the two ends of the integers of 64 bits with a sign only the lower one is held. -/
theorem write_number_exact_int64 :
    ScalarKind.int64 ≠ .binary32 ∧
      write .empty (.number (.ofInt (2 ^ 63))) 26 none = .error (.outOfRange "int64" (.ofInt (2 ^ 63))) ∧
      ∃ t a, write .empty (.number (.ofInt (-2 ^ 63))) 26 none = .ok t ∧
        ReadsBack .empty t 26 none (.ok (.scalar a)) ∧ a.toBinary64.Denotes (-2 ^ 63) := by
  have exact : ScalarKind.int64 ≠ .binary32 := by decide
  have slot : (Registry.lookup 26).encoding = .raw .int64 := by rfl
  have high : (Binary64.ofInt (2 ^ 63)).toRat = 2 ^ 63 := by decide +kernel
  have low : (Binary64.ofInt (-2 ^ 63)).toRat = -2 ^ 63 := by decide +kernel
  obtain ⟨-, -, refused⟩ := write_number_exact .int64 exact (.ofInt (2 ^ 63))
  obtain ⟨-, -, taken⟩ := write_number_exact .int64 exact (.ofInt (-2 ^ 63))
  have range : Scalar.integerRange? .int64 = some (-0x8000000000000000, 0x8000000000000000) := rfl
  refine ⟨exact, (refused 26 slot .empty none).1 ?_, ?_⟩
  · rintro ⟨-, held⟩
    rw [ScalarKind.holds_iff range, high] at held
    exact absurd held.2.2 (by decide +kernel)
  · have held : (Binary64.ofInt (-2 ^ 63)).isFinite = true ∧
        ScalarKind.int64.Holds (Binary64.ofInt (-2 ^ 63)).toRat := by
      rw [ScalarKind.holds_iff range, low]
      decide +kernel
    obtain ⟨t, wrote, back, -⟩ := (taken 26 slot .empty none).2 held
    obtain ⟨a, -, denoted, back⟩ := back (by decide)
    rw [low] at denoted
    exact ⟨t, a, wrote, back, denoted⟩

end Numbers

/-! ## Scalars of a chosen kind -/

/-- What comes of a field that is read as a kind is what comes of it read plainly. -/
structure Agrees (target : ScalarKind) (plain : Except FieldError Value × BitStream)
    (typed : Except FieldError Scalar × BitStream) : Prop where
  rest : typed.2 = plain.2
  error : ∀ error, typed.1 = .error error ↔ plain.1 = .error error
  fault : ∀ error, plain.1 = .error error → ∃ code, error = .deviceFault code
  scalar : ∀ a, plain.1 = .ok (.scalar a) → typed.1 = .ok a
  number : ∀ x, plain.1 = .ok (.number x) → x.isFinite = true ∧ ∃ a, typed.1 = .ok a ∧ x.IsAs target a
  text : ∀ text, plain.1 ≠ .ok (.text text)

section Targets

variable {key : UInt8} {target : ScalarKind} {r : FixedPoint} {s rest : BitStream}

theorem supports_iff (encoding : Encoding) (target : ScalarKind) :
    supports encoding target = true ↔ encoding.Matches target := by
  cases encoding with
  | raw kind => exact decide_eq_true_iff.trans eq_comm
  | fixedPoint _ | unassigned | text => simp [supports, Encoding.Matches]

theorem isAssigned_of_matches (fits : (Registry.lookup key).encoding.Matches target) :
    (Registry.lookup key).isAssigned = true := by
  refine decide_eq_true fun unassigned => ?_
  rw [unassigned] at fits
  exact fits

theorem readAs_of_mismatch (assigned : Registry.Assigned key)
    (apart : ¬ (Registry.lookup key).encoding.Matches target) (s : BitStream) :
    readAs s key target = (.error (.unsupportedTarget (Registry.lookup key).label target), s) := by
  rw [← supports_iff, Bool.not_eq_true] at apart
  unfold readAs
  simp [Registry.isAssigned_lookup assigned, apart]

/-! Behind the check the field is read plainly. -/

section Matching

variable (fits : (Registry.lookup key).encoding.Matches target)

include fits

theorem readAs_of_error {error : FieldError} (plain : read s key = (.error error, rest)) :
    readAs s key target = (.error error, rest) := by
  unfold readAs
  simp [isAssigned_of_matches fits, (supports_iff _ _).mpr fits, plain]

theorem readAs_of_scalar {a : Scalar} (plain : read s key = (.ok (.scalar a), rest)) :
    readAs s key target = (.ok a, rest) := by
  unfold readAs
  simp [isAssigned_of_matches fits, (supports_iff _ _).mpr fits, plain]

theorem readAs_of_number {x : Binary64} {a : Scalar} (plain : read s key = (.ok (.number x), rest))
    (taken : Scalar.ofBinary64? target x = some a) : readAs s key target = (.ok a, rest) := by
  unfold readAs
  simp [isAssigned_of_matches fits, (supports_iff _ _).mpr fits, plain, taken]

end Matching

/-- Whatever steps a range is read from, they lead to a small number. -/
theorem read_of_range (range : (Registry.lookup key).encoding = .fixedPoint r) (s : BitStream) :
    ∃ x p rest, read s key = (.ok (.number x), rest) ∧ x.Denotes p ∧ |p| ≤ 2 ^ 22 := by
  have registered := registered_of_range range
  have grid := isGrid_of_range range
  have width := Registry.width_le registered range
  have few : (s.readUInt r.width).1 ≤ 2 ^ 21 := by
    rw [s.readUInt_eq_numberAt (by omega)]
    have small := Bits.numberAt_lt s.bytes s.cursor r.width
    exact small.le.trans (Nat.pow_le_pow_right (by decide) (by omega))
  have narrow := (grid.abs_le_of_few few).1.trans_lt (by norm_num : (3 : ℚ) * 2 ^ 20 < 2 ^ 22)
  have near := Binary64.abs_rounded_sub_le_tiny narrow
  refine ⟨r.dequantize (s.readUInt r.width).1, _, s.skip r.width, ?_, grid.denotes_dequantize few, ?_⟩
  · unfold read
    rw [range, readValue?_fixedPoint]
    rfl
  · exact (FixedPoint.abs_lt_of_near near (grid.abs_le_of_few few).1 (by norm_num)).le

theorem read_of_slot {kind : ScalarKind} (slot : (Registry.lookup key).encoding = .raw kind) (s : BitStream) :
    ∃ rest, (∃ code, read s key = (.error (.deviceFault code), rest)) ∨
      ∃ a, read s key = (.ok (.scalar a), rest) := by
  refine ⟨s.skip kind.bitWidth, ?_⟩
  unfold read
  rw [slot, readValue?_raw]
  dsimp only
  split
  · exact .inl ⟨_, rfl⟩
  · exact .inr ⟨_, rfl⟩

/-- A range is read as a number of 64 bits, or as the nearest of 32 bits to that number. -/
theorem readAs_of_range (range : (Registry.lookup key).encoding = .fixedPoint r)
    (fits : (Registry.lookup key).encoding.Matches target) (s : BitStream) :
    ∃ x a rest, read s key = (.ok (.number x), rest) ∧ x.isFinite = true ∧
      readAs s key target = (.ok a, rest) ∧ x.IsAs target a := by
  obtain ⟨x, p, rest, plain, denoted, small⟩ := read_of_range range s
  have matched := fits
  rw [range] at matched
  rcases matched with rfl | rfl
  · have below : |p| < 2 ^ (127 : ℤ) := small.trans_lt (by norm_num)
    have taken := Scalar.ofBinary64?_binary32 denoted small
    refine ⟨x, _, rest, plain, denoted.finite, readAs_of_number fits plain taken, .inr ⟨rfl, _, rfl, rfl, ?_⟩⟩
    rw [denoted.toRat]
    exact Binary32.isNearest_ofBinary64 denoted below
  · have taken : Scalar.ofBinary64? .binary64 x = some (.binary64 x) := by
      simp [Scalar.ofBinary64?, denoted.finite]
    exact ⟨x, _, rest, plain, denoted.finite, readAs_of_number fits plain taken, .inl ⟨rfl, rfl⟩⟩

/-- **A field of this kind is read alike.** -/
theorem agrees_of_matches (fits : (Registry.lookup key).encoding.Matches target) (s : BitStream) :
    Agrees target (read s key) (readAs s key target) := by
  cases encoding : (Registry.lookup key).encoding with
  | unassigned | text =>
    rw [encoding] at fits
    exact fits.elim
  | fixedPoint r =>
    obtain ⟨x, a, rest, plain, finite, typed, value⟩ := readAs_of_range encoding fits s
    rw [plain, typed]
    constructor
    case number =>
      rintro y ⟨⟩
      exact ⟨finite, a, rfl, value⟩
    all_goals simp
  | raw kind =>
    obtain ⟨rest, ⟨code, plain⟩ | ⟨a, plain⟩⟩ := read_of_slot encoding s
    · rw [readAs_of_error fits plain, plain]
      constructor <;> simp
    · rw [readAs_of_scalar fits plain, plain]
      constructor <;> simp

end Targets

/-- **Reading a field as a kind agrees with reading it.** From every stream, wherever its cursor stands, a key that
no point has is refused as invalid, and any other exactly if its point is not read as this kind; then the stream
stays as it was. In all other cases the cursor moves as it does for the plain field, which fails with the same
fault of the device or not at all. A scalar is the same one; a number is the same one in 64 bits, and the nearest
one in 32. No number is ever out of range. -/
theorem readAs_agrees (s : BitStream) (key : UInt8) (target : ScalarKind) :
    let point := Registry.lookup key
    (readAs s key target = (.error (.invalidKey key), s) ↔ ¬ Registry.Assigned key) ∧
    (readAs s key target = (.error (.unsupportedTarget point.label target), s) ↔
      Registry.Assigned key ∧ ¬ point.encoding.Matches target) ∧
    (point.encoding.Matches target → Agrees target (read s key) (readAs s key target)) ∧
    ∀ label v, (readAs s key target).1 ≠ .error (.outOfRange label v) := by
  intro point
  by_cases assigned : Registry.Assigned key
  · by_cases fits : point.encoding.Matches target
    · have agrees := agrees_of_matches fits s
      -- What the plain field does not fail with is no error of this one.
      have other {error : FieldError} (noFault : ∀ code, error ≠ .deviceFault code) :
          (readAs s key target).1 ≠ .error error := by
        intro failed
        obtain ⟨code, fault⟩ := agrees.fault error ((agrees.error error).mp failed)
        exact noFault code fault
      refine ⟨?_, ?_, fun _ => agrees, fun label v => other (by simp)⟩
      · exact iff_of_false (fun refused => other (by simp) (congrArg Prod.fst refused)) (not_not.mpr assigned)
      · exact iff_of_false (fun refused => other (by simp) (congrArg Prod.fst refused)) fun both => both.2 fits
    · rw [readAs_of_mismatch assigned fits s]
      refine ⟨?_, ?_, fun matched => absurd matched fits, by simp⟩
      · exact iff_of_false (by simp) (not_not.mpr assigned)
      · exact iff_of_true rfl ⟨assigned, fits⟩
  · rw [readAs_of_unassigned assigned s target]
    refine ⟨iff_of_true rfl assigned, ?_, ?_, by simp⟩
    · exact iff_of_false (by simp) fun both => assigned both.1
    · intro matched
      obtain ⟨registered, named⟩ := Registry.lookup_of_isAssigned (isAssigned_of_matches matched)
      exact absurd ⟨_, registered, named⟩ assigned

end Field

end Telemetry
