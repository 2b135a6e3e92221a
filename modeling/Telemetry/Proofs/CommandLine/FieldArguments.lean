import Telemetry.CommandLine.Run
import Telemetry.Proofs.Point.Registry

/-!
# Field arguments

A field argument is a label, a position and a value behind one colon each, and only the value may hold
further colons (`IsField`). The registry knows its points by key and by label alike, so what is counted
by label among the arguments is counted by key among the fields that they are understood as
(`countP_key_of_parseFields`).
-/

namespace Telemetry

/-! ## Positions -/

/-- A text spells a natural in decimal digits, which a plus sign may precede. -/
def IsNumeral (text : List Char) (n : Nat) : Prop :=
  ∃ digits, (text = digits ∨ text = '+' :: digits) ∧ digits ≠ [] ∧ (∀ c ∈ digits, c.isDigit = true) ∧
    Nat.ofDigitChars 10 digits 0 = n

theorem Text.isDigit_of_digit? {c : Char} {value : Nat} (h : digit? c = some value) :
    c.isDigit = true ∧ c.toNat - '0'.toNat = value := by
  unfold digit? at h
  split at h
  · rename_i between
    cases h
    exact ⟨by simpa [Char.isDigit, Char.le_def] using between, rfl⟩
  · cases h

/-- A natural that is read from digits is what they spell, and does not exceed the limit. -/
theorem naturalFrom_ok {limit value n : Nat} {text : List Char} (small : value ≤ limit)
    (h : naturalFrom limit value text = .ok n) :
    n ≤ limit ∧ (∀ c ∈ text, c.isDigit = true) ∧ Nat.ofDigitChars 10 text value = n := by
  induction text generalizing value with
  | nil =>
    cases h
    exact ⟨small, List.forall_mem_nil _, rfl⟩
  | cons c rest ih =>
    rw [naturalFrom] at h
    split at h
    · cases h
    · rename_i figure read
      obtain ⟨digit, rfl⟩ := Text.isDigit_of_digit? read
      split at h
      · cases h
      · obtain ⟨most, all, spelled⟩ := ih (by omega) h
        exact ⟨most, List.forall_mem_cons.mpr ⟨digit, all⟩, by rw [Nat.ofDigitChars_cons, spelled]⟩

theorem parseNatural_ok {limit n : Nat} {text : List Char} (h : parseNatural limit text = .ok n) :
    n ≤ limit ∧ IsNumeral text n := by
  unfold parseNatural at h
  split at h
  · cases h
  · cases h
  · rename_i digits some
    obtain ⟨most, all, spelled⟩ := naturalFrom_ok (Nat.zero_le _) h
    exact ⟨most, digits, .inr rfl, fun none => some (none ▸ rfl), all, spelled⟩
  · rename_i some _ _
    obtain ⟨most, all, spelled⟩ := naturalFrom_ok (Nat.zero_le _) h
    exact ⟨most, text, .inl rfl, some, all, spelled⟩

namespace CommandLine

/-! ## One argument -/

/-- An argument is a label, a position and a value, with a colon behind each of the first two. -/
structure IsField (argument label : String) (position value : List Char) : Prop where
  layout : argument.toList = label.toList ++ ':' :: (position ++ ':' :: value)
  label : ':' ∉ label.toList
  position : ':' ∉ position

/-- What stands in front of the first colon of an argument. -/
def labelOf (argument : String) : String :=
  String.ofList (argument.toList.takeWhile (· ≠ ':'))

theorem takeWhile_dropWhile_colon {front : List Char} (behind : List Char) (none : ':' ∉ front) :
    (front ++ ':' :: behind).takeWhile (· ≠ ':') = front ∧
      (front ++ ':' :: behind).dropWhile (· ≠ ':') = ':' :: behind := by
  have passed : ∀ c ∈ front, decide (c ≠ ':') = true := by
    intro c inside
    exact decide_eq_true fun colon => none (colon ▸ inside)
  constructor
  · rw [List.takeWhile_append_of_pos passed, List.takeWhile_cons_of_neg (by decide), List.append_nil]
  · rw [List.dropWhile_append_of_pos passed, List.dropWhile_cons_of_neg (by decide)]

theorem splitColon?_eq_some_iff {text front behind : List Char} :
    splitColon? text = some (front, behind) ↔ text = front ++ ':' :: behind ∧ ':' ∉ front := by
  unfold splitColon?
  constructor
  · intro h
    split at h
    · rename_i c rest dropped
      cases h
      have stopped := List.head?_dropWhile_not (fun c => decide (c ≠ ':')) text
      rw [dropped, List.head?_cons] at stopped
      have colon : c = ':' := by simpa using stopped
      refine ⟨?_, fun inside => ?_⟩
      · have whole := List.takeWhile_append_dropWhile (p := fun c => decide (c ≠ ':')) (l := text)
        rw [dropped, colon] at whole
        exact whole.symm
      · have passed := List.all_eq_true.mp List.all_takeWhile _ inside
        exact absurd rfl (of_decide_eq_true passed)
    · cases h
  · rintro ⟨rfl, none⟩
    obtain ⟨taken, dropped⟩ := takeWhile_dropWhile_colon behind none
    rw [dropped, taken]

theorem splitField?_eq_some_iff {argument label : String} {position value : List Char} :
    splitField? argument = some (label, position, value) ↔ IsField argument label position value := by
  constructor
  · intro h
    obtain ⟨⟨front, rest⟩, first, h⟩ := Option.bind_eq_some_iff.mp h
    obtain ⟨⟨middle, last⟩, second, h⟩ := Option.bind_eq_some_iff.mp h
    cases h
    obtain ⟨whole, bare⟩ := splitColon?_eq_some_iff.mp first
    obtain ⟨rfl, bare'⟩ := splitColon?_eq_some_iff.mp second
    exact ⟨by rw [String.toList_ofList, whole], by rwa [String.toList_ofList], bare'⟩
  · rintro ⟨layout, bare, bare'⟩
    refine Option.bind_eq_some_iff.mpr ⟨_, splitColon?_eq_some_iff.mpr ⟨layout, bare⟩, ?_⟩
    refine Option.bind_eq_some_iff.mpr ⟨_, splitColon?_eq_some_iff.mpr ⟨rfl, bare'⟩, ?_⟩
    rw [String.ofList_toList]
    rfl

theorem IsField.labelOf_eq {argument label : String} {position value : List Char}
    (h : IsField argument label position value) : labelOf argument = label := by
  rw [labelOf, h.layout, (takeWhile_dropWhile_colon _ h.label).1, String.ofList_toList]

/-- What an argument is understood as. -/
theorem parseField_ok {argument : String} {w : FieldWrite} (h : parseField argument = .ok w) :
    ∃ label position value point n, IsField argument label position value ∧
      Registry.lookupLabel? label = some point ∧ IsNumeral position n ∧
      w.key = point.key ∧ w.position.toNat = n ∧
      (point.encoding = .text → w.value = .text (String.ofList value)) := by
  unfold parseField at h
  split at h
  · cases h
  · rename_i label position value split
    have field := splitField?_eq_some_iff.mp split
    split at h
    · cases h
    · rename_i point known
      split at h
      · cases h
      · rename_i n read
        obtain ⟨most, natural⟩ := parseNatural_ok read
        have place : (UInt8.ofNat n).toNat = n := UInt8.toNat_ofNat_of_lt' (Nat.lt_succ_of_le most)
        refine ⟨label, position, value, point, n, field, known, natural, ?_⟩
        split at h
        · cases h
          exact ⟨rfl, place, fun _ => rfl⟩
        · rename_i other
          split at h
          · cases h
          · cases h
            exact ⟨rfl, place, fun text => absurd text other⟩

/-! ## All arguments -/

/-- Arguments are understood one by one, each on its own. -/
theorem parseFields_eq_ok_iff {arguments : List String} {writes : List FieldWrite} :
    parseFields arguments = .ok writes ↔ arguments.map parseField = writes.map .ok := by
  induction arguments generalizing writes with
  | nil =>
    constructor
    · intro h
      cases h
      rfl
    · intro h
      cases List.map_eq_nil_iff.mp h.symm
      rfl
  | cons argument rest ih =>
    rw [parseFields, List.map_cons]
    constructor
    · intro h
      cases first : parseField argument with
      | error report =>
        rw [first] at h
        cases h
      | ok field =>
        cases others : parseFields rest with
        | error report =>
          rw [first, others] at h
          cases h
        | ok more =>
          rw [first, others] at h
          cases h
          rw [ih.mp others, List.map_cons]
    · intro h
      obtain ⟨field, more, rfl, first, others⟩ := List.map_eq_cons_iff.mp h.symm
      rw [← first, ih.mpr others.symm]
      rfl

/-- What became of an argument is a field with this key. -/
def hasKey (key : UInt8) : Except Report FieldWrite → Bool
  | .ok w => w.key = key
  | .error _ => false

/-- The fields with the key of a point are counted by the arguments with its label. -/
theorem countP_key_of_parseFields {arguments : List String} {writes : List FieldWrite}
    {point : Descriptor} (parsed : parseFields arguments = .ok writes) (known : point ∈ Registry.points)
    (count : Nat) :
    (writes.take count).countP (fun w => w.key = point.key) =
      (arguments.take count).countP fun argument => labelOf argument = point.label := by
  have same := parseFields_eq_ok_iff.mp parsed
  -- Whether a field is counted can be told from what became of its argument.
  have fields : (writes.take count).countP (fun w => w.key = point.key) =
      ((writes.map .ok).take count).countP (hasKey point.key) := by
    rw [← List.map_take, List.countP_map]
    rfl
  rw [fields, ← same, ← List.map_take, List.countP_map]
  refine List.countP_congr fun argument inside => ?_
  have mapped : parseField argument ∈ arguments.map parseField :=
    List.mem_map_of_mem (List.mem_of_mem_take inside)
  rw [same] at mapped
  obtain ⟨w, -, made⟩ := List.mem_map.mp mapped
  obtain ⟨label, position, value, other, n, field, named, -, key, -⟩ := parseField_ok made.symm
  obtain ⟨registered, rfl⟩ := Registry.lookupLabel?_some named
  show hasKey point.key (parseField argument) = true ↔ _
  rw [← made, field.labelOf_eq]
  simp only [hasKey, key, decide_eq_true_eq, Registry.key_eq_iff_label_eq registered known]

end CommandLine

end Telemetry
