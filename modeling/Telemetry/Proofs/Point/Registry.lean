import Telemetry.Point.Registry

/-!
# Keys and labels

The registry is a table with the point of key 1 in its first entry, that of key 2 in the next and so on
(`Registry.toNat_key_getElem`). So it knows its points by key and by label alike, and no two of them share either
(`Registry.key_eq_iff_label_eq`). A value takes from one byte to eight of them, unless it is a text
(`Registry.points_sound`).
-/

namespace Telemetry.Registry

/-- A point has a key of six bits other than that of the end marker, and its values take from 8 to 64 bits
unless they are texts. -/
theorem points_sound : ∀ d ∈ points, d.isAssigned ∧ 0 < d.key.toNat ∧ d.key.toNat < 64 ∧
    ∀ n ∈ d.bitCount?, 8 ≤ n ∧ n ≤ 64 := by
  decide +kernel

/-! ## Keys -/

theorem toNat_key_getElem : ∀ i (h : i < points.length), points[i].key.toNat = i + 1 := by
  decide +kernel

theorem eq_of_key_eq {a b : Descriptor} (left : a ∈ points) (right : b ∈ points) (same : a.key = b.key) :
    a = b := by
  obtain ⟨i, first, rfl⟩ := List.getElem_of_mem left
  obtain ⟨j, second, rfl⟩ := List.getElem_of_mem right
  have places := congrArg UInt8.toNat same
  rw [toNat_key_getElem, toNat_key_getElem] at places
  obtain rfl : i = j := Nat.add_right_cancel places
  rfl

/-- Some point has this key. -/
def Assigned (key : UInt8) : Prop :=
  ∃ point ∈ points, point.key = key

theorem lookup_of_unassigned {key : UInt8} (unassigned : ¬ Assigned key) : lookup key = .blank := by
  have none : (points.find? fun point => point.key = key) = none :=
    List.find?_eq_none.mpr fun point member named =>
      unassigned ⟨point, member, of_decide_eq_true named⟩
  rw [lookup, none]
  rfl

theorem isAssigned_lookup {key : UInt8} (assigned : Assigned key) : (lookup key).isAssigned = true := by
  obtain ⟨point, member, named⟩ := assigned
  cases found : points.find? fun d => d.key = key with
  | none => exact absurd (decide_eq_true named) (List.find?_eq_none.mp found point member)
  | some first =>
    rw [lookup, found]
    exact (points_sound first (List.mem_of_find?_eq_some found)).1

theorem lookup_of_isAssigned {key : UInt8} (h : (lookup key).isAssigned) :
    lookup key ∈ points ∧ (lookup key).key = key := by
  unfold lookup at h ⊢
  cases found : points.find? fun d => d.key = key with
  | none =>
    rw [found] at h
    exact absurd h (by decide)
  | some point =>
    have named := List.find?_some found
    exact ⟨List.mem_of_find?_eq_some found, of_decide_eq_true named⟩

theorem lookup_key : ∀ point ∈ points, lookup point.key = point := by
  intro point member
  obtain ⟨registered, same⟩ := lookup_of_isAssigned (isAssigned_lookup ⟨point, member, rfl⟩)
  exact eq_of_key_eq registered member same

/-- The entry of a point is told by its key. -/
theorem lookup_eq_getElem {key : UInt8} (pos : 0 < key.toNat) (h : key.toNat - 1 < points.length) :
    lookup key = points[key.toNat - 1] := by
  have named : points[key.toNat - 1].key = key := by
    rw [← UInt8.toNat_inj, toNat_key_getElem, Nat.sub_add_cancel pos]
  have found := lookup_key _ (List.getElem_mem h)
  rwa [named] at found

/-- The points are those of keys 1 to 43. -/
theorem isAssigned_iff (key : UInt8) :
    (lookup key).isAssigned = true ↔ 0 < key.toNat ∧ key.toNat < 44 := by
  have count : points.length = 43 := rfl
  constructor
  · intro assigned
    obtain ⟨registered, named⟩ := lookup_of_isAssigned assigned
    obtain ⟨i, inside, found⟩ := List.getElem_of_mem registered
    have place := toNat_key_getElem i inside
    rw [found, named] at place
    omega
  · rintro ⟨pos, small⟩
    have inside : key.toNat - 1 < points.length := by omega
    rw [lookup_eq_getElem pos inside]
    exact (points_sound _ (List.getElem_mem inside)).1

/-! ## Labels -/

theorem lookupLabel?_label : ∀ point ∈ points, lookupLabel? point.label = some point := by
  decide +kernel

theorem lookupLabel?_some {label : String} {point : Descriptor} (h : lookupLabel? label = some point) :
    point ∈ points ∧ point.label = label := by
  unfold lookupLabel? at h
  have named := List.find?_some h
  exact ⟨List.mem_of_find?_eq_some h, of_decide_eq_true named⟩

/-- No two points have one key or one label. -/
theorem key_eq_iff_label_eq {a b : Descriptor} (left : a ∈ points) (right : b ∈ points) :
    a.key = b.key ↔ a.label = b.label := by
  constructor
  · intro same
    rw [eq_of_key_eq left right same]
  · intro same
    have found := lookupLabel?_label a left
    rw [same, lookupLabel?_label b right] at found
    rw [Option.some.inj found]

end Telemetry.Registry
