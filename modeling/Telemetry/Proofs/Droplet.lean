import Mathlib.Data.List.Basic
import Mathlib.Data.List.GetD
import Telemetry.Droplet
import Telemetry.Proofs.Hex.Grammar

/-!
# What the frame of a sensor depends on

Measurements stand at fixed places of the first thirteen bytes and the radio metrics in the last two, so the
frame is told by these (`DropletFrame.decode_append`), whatever lies between. The body may also be read from
the front, one measurement after the other, each of which fails where too few bytes are left
(`InOrder.decode`). None fails, since the metrics are split off first and what is long enough for both keeps
the thirteen bytes that the body takes (`InOrder.decode_eq`).
-/

namespace Telemetry

namespace DropletFrame

/-! ## Places -/

section Places

variable {bytes : List UInt8}

theorem getD_take {place size : Nat} (inside : place < size) :
    (bytes.take size).getD place 0 = bytes.getD place 0 := by
  rw [List.getD_eq_getElem?_getD, List.getElem?_take_of_lt inside, List.getD_eq_getElem?_getD]

/-- The measurements are those of the body alone. -/
theorem measure_take (model : DropletModel) (bytes : List UInt8) {size : Nat} (whole : 13 ≤ size) :
    measure model (bytes.take size) = measure model bytes := by
  simp (disch := omega) only [measure, word, getD_take]

theorem four_take (bytes : List UInt8) {size : Nat} (whole : 4 ≤ size) :
    OpenedEnvelope.four (bytes.take size) 0 = OpenedEnvelope.four bytes 0 := by
  refine Vector.ext fun i below => ?_
  rw [OpenedEnvelope.four, OpenedEnvelope.four, Vector.getElem_ofFn, Vector.getElem_ofFn,
    getD_take (by omega)]

/-- A frame that is not too short is a body and the bytes of the radio metrics, with something between. -/
theorem exists_parts (long : 15 ≤ bytes.length) :
    ∃ between rssi snr, bytes = bytes.take 13 ++ between ++ [rssi, snr] ∧
      bytes.drop (bytes.length - 2) = [rssi, snr] := by
  obtain ⟨rssi, snr, last⟩ : ∃ rssi snr, bytes.drop (bytes.length - 2) = [rssi, snr] :=
    List.length_eq_two.mp (by rw [List.length_drop]; omega)
  refine ⟨(bytes.drop 13).take (bytes.length - 15), rssi, snr, ?_, last⟩
  have behind : 13 + (bytes.length - 15) = bytes.length - 2 := by omega
  rw [← last, ← behind, ← List.drop_drop, List.append_assoc, List.take_append_drop,
    List.take_append_drop]

end Places

section Decoding

variable {model : DropletModel} {bytes other : List UInt8}

theorem decode_of_short (short : bytes.length < 15) :
    decode model bytes = .error (.tooShort 15 bytes.length) :=
  if_pos short

/-- What is told of a body with radio metrics behind it. -/
theorem decode_append (model : DropletModel) {body : List UInt8} (between : List UInt8) (rssi snr : UInt8)
    (sized : body.length = 13) :
    decode model (body ++ between ++ [rssi, snr]) =
      .ok ⟨OpenedEnvelope.four body 0, measure model body, .ofBytes rssi snr⟩ := by
  have length : (body ++ between ++ [rssi, snr]).length = (body ++ between).length + 2 :=
    List.length_append
  have long : ¬ (body ++ between ++ [rssi, snr]).length < 15 := by
    rw [length, List.length_append]
    omega
  have front : (body ++ between ++ [rssi, snr]).take 13 = body := by
    rw [List.append_assoc, ← sized, List.take_left]
  have last (place : Nat) : (body ++ between ++ [rssi, snr]).getD ((body ++ between).length + place) 0 =
      [rssi, snr].getD place 0 := by
    rw [List.getD_append_right _ _ _ _ (Nat.le_add_right _ _), Nat.add_sub_cancel_left]
  refine (if_neg long).trans ?_
  rw [← measure_take model _ (Nat.le_refl 13), ← four_take _ (by decide : 4 ≤ 13), front, length]
  exact congrArg _ (congrArg _ (congrArg₂ RadioMetrics.ofBytes (last 0) (last 1)))

theorem decode_of_long (model : DropletModel) (long : 15 ≤ bytes.length) :
    ∃ rssi snr, bytes.drop (bytes.length - 2) = [rssi, snr] ∧ decode model bytes =
      .ok ⟨OpenedEnvelope.four bytes 0, measure model bytes, .ofBytes rssi snr⟩ := by
  obtain ⟨between, rssi, snr, parts, last⟩ := exists_parts long
  have sized : (bytes.take 13).length = 13 := List.length_take_of_le (by omega)
  have told := decode_append model between rssi snr sized
  rw [← parts, measure_take model _ (Nat.le_refl 13), four_take _ (by decide : 4 ≤ 13)] at told
  exact ⟨rssi, snr, last, told⟩

theorem decode_congr (model : DropletModel) (long : 15 ≤ bytes.length) (long' : 15 ≤ other.length)
    (body : bytes.take 13 = other.take 13)
    (last : bytes.drop (bytes.length - 2) = other.drop (other.length - 2)) :
    decode model bytes = decode model other := by
  obtain ⟨between, rssi, snr, parts, ends⟩ := exists_parts long
  obtain ⟨between', rssi', snr', parts', ends'⟩ := exists_parts long'
  have sized : (other.take 13).length = 13 := List.length_take_of_le (by omega)
  rw [ends, ends'] at last
  cases last
  rw [parts, parts', body, decode_append model _ _ _ sized, decode_append model _ _ _ sized]

theorem measure_prefix (bytes : List UInt8) :
    measure .th bytes <+: measure .thl bytes ∧ measure .thl bytes <+: measure .thlm bytes :=
  ⟨⟨_, rfl⟩, ⟨_, rfl⟩⟩

end Decoding

/-! ## Reading from the front -/

namespace InOrder

/-- What is left to be read is the state, and the error when it is too little. -/
abbrev Front := StateT (List UInt8) (Except (List UInt8))

/-- So many bytes, all of which have to be there. -/
def take (count : Nat) : Front (List UInt8) := fun bytes =>
  if count ≤ bytes.length then .ok (bytes.take count, bytes.drop count) else .error bytes

/-- The number in bytes, the least significant first. -/
def littleEndian : List UInt8 → Nat
  | [] => 0
  | byte :: rest => byte.toNat + 256 * littleEndian rest

def number (count : Nat) : Front Nat := do
  return littleEndian (← take count)

/-- What the body of a frame says, whichever model sent it. -/
structure Body where
  address : Address
  temperature : Int
  pressure : Nat
  humidity : Nat
  light : Nat
  voltage : Nat
  motion : Nat

def body : Front Body := do
  let address ← take 4
  let temperature ← number 2
  let pressure ← number 2
  let humidity ← number 1
  let light ← number 2
  let voltage ← number 1
  let motion ← number 1
  return {
    address := OpenedEnvelope.four address 0
    temperature := Int.bmod temperature 65536
    pressure, humidity, light, voltage, motion }

/-- The measurements that a model makes of them. -/
def Body.measurements (body : Body) (model : DropletModel) : List Measurement :=
  let dark : List Measurement :=
    [⟨"temperature", hundredths body.temperature 100⟩, ⟨"humidity", Binary64.ofNat (body.humidity % 128)⟩,
     ⟨"pressure", hundredths body.pressure 10⟩, ⟨"voltage", hundredths body.voltage 50⟩]
  let still := if model.hasLight then dark ++ [⟨"light", Binary64.ofNat body.light⟩] else dark
  if model.hasMotion then still ++ [⟨"motion", Binary64.ofNat (if body.motion ≠ 0 then 1 else 0)⟩]
  else still

/-- Why reading in order fails. -/
inductive Failure where
  | frame (error : DropletError)
  /-- The body ends early, with these bytes left. -/
  | body (left : List UInt8)

/-- Read the frame of a model: the metrics off its end, and then the body from the front. -/
def decode (model : DropletModel) (bytes : List UInt8) : Except Failure DropletFrame :=
  if bytes.length < minLength then .error (.frame (.tooShort minLength bytes.length))
  else
    let metrics := bytes.drop (bytes.length - 2)
    match body.run (bytes.take (bytes.length - 2)) with
    | .error left => .error (.body left)
    | .ok (body, _) =>
      .ok
        { address := body.address
          measurements := body.measurements model
          radio := .ofBytes (metrics.getD 0 0) (metrics.getD 1 0) }

/-- The body by the places of its parts. -/
def Body.atPlaces (bytes : List UInt8) : Body where
  address := OpenedEnvelope.four bytes 0
  temperature := Int.bmod (word bytes 4) 65536
  pressure := word bytes 6
  humidity := (bytes.getD 8 0).toNat
  light := word bytes 9
  voltage := (bytes.getD 11 0).toNat
  motion := (bytes.getD 12 0).toNat

theorem Body.measurements_atPlaces (model : DropletModel) (bytes : List UInt8) :
    (Body.atPlaces bytes).measurements model = measure model bytes := by
  have moves : (if (atPlaces bytes).motion ≠ 0 then 1 else 0) = if bytes.getD 12 0 = 0 then 0 else 1 := by
    by_cases still : bytes.getD 12 0 = 0
    · have none : (atPlaces bytes).motion = 0 := congrArg UInt8.toNat still
      rw [if_pos still, if_neg (not_not_intro none)]
    · have some : (atPlaces bytes).motion ≠ 0 := fun none => still (UInt8.toNat_inj.mp none)
      rw [if_neg still, if_pos some]
  unfold measurements
  rw [moves]
  dsimp only [atPlaces]
  cases model <;> rfl

section Run

variable {α : Type} {bytes : List UInt8}

theorem run_take {count : Nat} (next : List UInt8 → Front α) (enough : count ≤ bytes.length) :
    (take count >>= next).run bytes = (next (bytes.take count)).run (bytes.drop count) := by
  have taken : (take count).run bytes = .ok (bytes.take count, bytes.drop count) := if_pos enough
  rw [StateT.run_bind, taken]
  rfl

theorem run_number {count : Nat} (next : Nat → Front α) (enough : count ≤ bytes.length) :
    (number count >>= next).run bytes =
      (next (littleEndian (bytes.take count))).run (bytes.drop count) := by
  rw [number, bind_assoc, run_take _ enough]
  rfl

theorem littleEndian_one {start : Nat} (inside : start + 1 ≤ bytes.length) :
    littleEndian ((bytes.drop start).take 1) = (bytes.getD start 0).toNat := by
  rw [List.drop_eq_getElem_cons inside, List.getD_eq_getElem _ _ inside]
  rfl

theorem littleEndian_two {start : Nat} (inside : start + 2 ≤ bytes.length) :
    littleEndian ((bytes.drop start).take 2) = word bytes start := by
  rw [List.drop_eq_getElem_cons (by omega), List.drop_eq_getElem_cons (by omega), word,
    List.getD_eq_getElem _ _ (by omega), List.getD_eq_getElem _ _ (by omega)]
  rfl

theorem run_body (long : 13 ≤ bytes.length) : body.run bytes = .ok (.atPlaces bytes, bytes.drop 13) := by
  unfold body
  rw [run_take _ (by omega)]
  iterate 6 rw [run_number _ (by simp only [List.length_drop]; omega)]
  simp only [List.drop_drop]
  rw [four_take _ (Nat.le_refl 4), littleEndian_two (by omega), littleEndian_two (by omega),
    littleEndian_one (by omega), littleEndian_two (by omega), littleEndian_one (by omega),
    littleEndian_one (by omega)]
  rfl

end Run

/-- Reading in order comes to the same, and the body never ends early. -/
theorem decode_eq (model : DropletModel) (bytes : List UInt8) :
    decode model bytes = (DropletFrame.decode model bytes).mapError .frame := by
  by_cases short : bytes.length < 15
  · rw [decode_of_short short]
    exact if_pos short
  · obtain ⟨rssi, snr, last, told⟩ := decode_of_long model (Nat.le_of_not_lt short)
    have front : 13 ≤ (bytes.take (bytes.length - 2)).length := by
      rw [List.length_take]
      omega
    refine (if_neg short).trans ?_
    simp only [run_body front, told, last, Body.measurements_atPlaces]
    rw [measure_take model bytes (by omega)]
    exact congrArg Except.ok
      (congrArg (DropletFrame.mk · (measure model bytes) (.ofBytes rssi snr)) (four_take bytes (by omega)))

end InOrder

/-! ## Reading text -/

section Text

variable {model : DropletModel} {text other : String}

theorem parse_of_ok {bytes : List UInt8} (read : Hex.decodeLenient text = .ok bytes) :
    parse model text = decode model bytes := by
  rw [parse, read]

theorem parse_invalidHex_iff {error : HexError} :
    parse model text = .error (.invalidHex error) ↔ Hex.decodeLenient text = .error error := by
  cases read : Hex.decodeLenient text with
  | error first =>
    rw [parse, read]
    simp
  | ok bytes =>
    rw [parse_of_ok read]
    refine iff_of_false (fun refused => ?_) (by simp)
    unfold decode at refused
    split at refused
    · cases refused
    · cases refused

theorem parse_congr (same : Hex.decodeLenient other = Hex.decodeLenient text) :
    parse model other = parse model text := by
  rw [parse, parse, same]

end Text

/-- **A frame is told by its first thirteen and its last two bytes.** It is refused if and only if it has
fewer than fifteen bytes, and then for its length; a body that is read from the front never ends early. Two
frames that agree in the bytes of the body and of the metrics are told alike, however much lies between: the
sensor and its measurements come from the body and the radio metrics from the end. A model with more
measurements adds them to those of the others and changes nothing else. Text is read as the bytes of its
digits, or refused with the error of reading them, so nothing changes with what is put in between the digits
or with their case. -/
theorem decode_local (model : DropletModel) (bytes : List UInt8) :
    (decode model bytes = .error (.tooShort 15 bytes.length) ↔ bytes.length < 15) ∧
    (15 ≤ bytes.length → ∃ frame, decode model bytes = .ok frame) ∧
    (InOrder.decode model bytes = (decode model bytes).mapError .frame) ∧
    (∀ left, InOrder.decode model bytes ≠ .error (.body left)) ∧
    (∀ (body between : List UInt8) (rssi snr : UInt8), body.length = 13 →
      decode model (body ++ between ++ [rssi, snr]) =
        .ok ⟨OpenedEnvelope.four body 0, measure model body, .ofBytes rssi snr⟩) ∧
    (∀ other, 15 ≤ bytes.length → 15 ≤ other.length → bytes.take 13 = other.take 13 →
      bytes.drop (bytes.length - 2) = other.drop (other.length - 2) →
      decode model bytes = decode model other) ∧
    (15 ≤ bytes.length → ∃ th thl thlm : DropletFrame, decode .th bytes = .ok th ∧
      decode .thl bytes = .ok thl ∧ decode .thlm bytes = .ok thlm ∧
      th.measurements <+: thl.measurements ∧ thl.measurements <+: thlm.measurements ∧
      th.address = thl.address ∧ thl.address = thlm.address ∧ th.radio = thl.radio ∧
      thl.radio = thlm.radio) ∧
    (∀ text : String, (∀ digits, Hex.decodeLenient text = .ok digits →
        parse model text = decode model digits) ∧
      (∀ error, parse model text = .error (.invalidHex error) ↔ Hex.decodeLenient text = .error error) ∧
      ∀ other : String, Text.Inserted (fun c => ¬ Text.IsHexDigit c) text.toList other.toList ∨
          other.toList.map Char.toUpper = text.toList.map Char.toUpper →
        parse model other = parse model text) := by
  refine ⟨⟨fun refused => ?_, decode_of_short⟩, ?_, InOrder.decode_eq model bytes, ?_,
    fun body between rssi snr sized => decode_append model between rssi snr sized,
    fun other long long' body last => decode_congr model long long' body last, ?_,
    fun text => ⟨fun digits => parse_of_ok, fun error => parse_invalidHex_iff, ?_⟩⟩
  · by_contra long
    obtain ⟨rssi, snr, -, told⟩ := decode_of_long model (Nat.le_of_not_lt long)
    cases told.symm.trans refused
  · intro long
    obtain ⟨rssi, snr, -, told⟩ := decode_of_long model long
    exact ⟨_, told⟩
  · intro left
    rw [InOrder.decode_eq]
    cases decode model bytes <;> simp [Except.mapError]
  · intro long
    obtain ⟨rssi, snr, last, th⟩ := decode_of_long .th long
    obtain ⟨_, _, last', thl⟩ := decode_of_long .thl long
    obtain ⟨_, _, last'', thlm⟩ := decode_of_long .thlm long
    cases last.symm.trans last'
    cases last.symm.trans last''
    obtain ⟨light, motion⟩ := measure_prefix bytes
    exact ⟨_, _, _, th, thl, thlm, light, motion, rfl, rfl, rfl, rfl⟩
  · rintro other (others | upper)
    · exact parse_congr (Hex.decodeLenient_of_inserted others)
    · exact parse_congr (Hex.decodeLenient_of_upper upper)

end DropletFrame

end Telemetry
