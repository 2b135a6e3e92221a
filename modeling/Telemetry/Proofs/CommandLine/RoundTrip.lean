import Telemetry.Proofs.CommandLine.FieldArguments
import Telemetry.Proofs.CommandLine.Steps
import Telemetry.Proofs.Envelope.Nonces
import Telemetry.Proofs.Frame.Drafts
import Telemetry.Proofs.Hex
import Telemetry.Proofs.Json

/-!
# Opening what was sealed

Two runs of the program meet only in an envelope as a text and in the configuration. Sealing comes to a
line if and only if each of its steps does (`sealFrame_eq_ok_iff`), and what it prints is read again as
the bytes that it sealed, which the same key opens (`reveal_sealed`). The header that the configuration
chooses tells the reader whether fields carry positions, so each argument comes back as a line, in order
and under its index. Of a printed line all that is told is what reading its text gives
(`execute_reveal_sealFrame`).
-/

namespace Telemetry

/-! ## Lines -/

/-- The value of a member of an object. -/
def Json.member? : Json → String → Option Json
  | .object members, name => members.lookup name
  | _, _ => none

namespace CommandLine

theorem member?_shown_readingJson (reading : Reading) :
    (readingJson reading).shown.member? "key" = some (.integer reading.key.toNat) ∧
      (readingJson reading).shown.member? "name" = some (.string reading.name) ∧
      (readingJson reading).shown.member? "text" = reading.text.map .string := by
  obtain ⟨name, key, index, value, text, error⟩ := reading
  cases error <;> cases text <;> exact ⟨rfl, rfl, rfl⟩

end CommandLine

/-! ## Envelopes -/

/-- An address is shown as its text in upper case, without the white space. -/
theorem Address.toList_render {text : String} {a : Address} (h : parse text = .ok a) :
    a.render.toList = (text.toList.filter fun c => !Text.isBlank c).map Char.toUpper := by
  have decoded : Hex.decodeExactly 4 text = .ok a := CommandLine.eq_ok_of_mapError h
  exact Hex.toList_encodeUpper_of_decode (Hex.decode_of_decodeExactly decoded)

namespace Envelope

theorem sealWith_ne_nil (key : EnvelopeKey) (address : Address) (options nonce : UInt8)
    (payload : List UInt8) : sealWith key address options nonce payload ≠ [] := by
  rw [← List.length_pos_iff, length_sealWith]
  omega

end Envelope

theorem Session.encrypt_eq_ok_iff {session : Session} {key : EnvelopeKey} {address : String}
    {options : UInt8} {payload envelope : List UInt8} :
    (session.encrypt key.bytes address options payload).1 = .ok envelope ↔
      ∃ a, Address.parse address = .ok a ∧ payload.length ≤ 255 ∧
        envelope = Envelope.sealWith key a options session.nextNonce payload := by
  unfold encrypt
  rw [EnvelopeKey.ofBytes_bytes]
  dsimp only
  cases Address.parse address with
  | error error => simp
  | ok a =>
    unfold sealTo
    by_cases long : 255 < payload.length
    · simp [if_pos long, Nat.not_le_of_lt long]
    · simp [if_neg long, Nat.le_of_not_lt long, eq_comm]

theorem Config.messageId_frameHeader (config : Config) :
    config.frameHeader.messageId = none ∧ config.frameHeader.flags.hasMessageId = false := by
  unfold frameHeader
  cases config.positional <;> decide

theorem Config.isPositional_frameHeader (config : Config) :
    config.frameHeader.flags.isPositional = config.positional := by
  unfold frameHeader
  cases config.positional <;> decide

namespace CommandLine

/-! ## Sealing -/

/-- Sealing comes to lines if and only if the key, the fields, the frame and the address are all right and
the length byte can count the frame. -/
theorem sealFrame_eq_ok_iff {config : Config} {address : String} {given : Option String}
    {options nonce : Option UInt8} {arguments : List String} {lines : List Json} :
    (sealFrame config address given options nonce arguments).result = .ok lines ↔
      ∃ key writes payload a, resolveKey given config = .ok key ∧ parseFields arguments = .ok writes ∧
        encodeFrame config.frameHeader writes = .ok payload ∧ Address.parse address = .ok a ∧
        payload.length ≤ 255 ∧
        lines = [.object
          [("envelope", .string (Hex.encodeUpper (Envelope.sealWith key a
            (options.getD config.options) (nonce.getD config.nonce) payload))),
           ("payload", .string (Hex.encodeUpper payload))]] := by
  have session : (nonce.elim config.session Session.mk).nextNonce = nonce.getD config.nonce := by
    cases nonce <;> rfl
  constructor
  · intro h
    unfold sealFrame at h
    split at h
    · cases h
    · rename_i key resolved
      split at h
      · cases h
      · rename_i writes parsed
        split at h
        · cases h
        · rename_i payload encoded
          dsimp only at h
          split at h
          · cases h
          · rename_i envelope made
            cases h
            obtain ⟨a, named, short, rfl⟩ := Session.encrypt_eq_ok_iff.mp made
            rw [session]
            exact ⟨key, writes, payload, a, resolved, parsed, encoded, named, short, rfl⟩
  · rintro ⟨key, writes, payload, a, resolved, parsed, encoded, named, short, rfl⟩
    have made : ((nonce.elim config.session Session.mk).encrypt key.bytes address
        (options.getD config.options) payload).1 = .ok (Envelope.sealWith key a
          (options.getD config.options) (nonce.getD config.nonce) payload) :=
      Session.encrypt_eq_ok_iff.mpr ⟨a, named, short, by rw [session]⟩
    unfold sealFrame
    rw [resolved]
    dsimp only
    rw [parsed]
    dsimp only
    rw [encoded]
    dsimp only
    rw [made]

/-! ## Opening -/

theorem uplinkJson_of_none {opened : OpenedEnvelope} {frame : FrameReading}
    (unannounced : frame.header.messageId = none) :
    uplinkJson ⟨opened, none, frame⟩ = .object
      [("address", .string opened.address.render), ("message_id", .null),
       ("nonce", .integer opened.nonce.toNat), ("opts", .integer opened.options.toNat)] := by
  unfold uplinkJson
  rw [unannounced]
  rfl

/-- An envelope that was sealed comes to its header and a line for each reading of the frame inside. -/
theorem reveal_sealed {config : Config} {given : Option String} {key : EnvelopeKey} (a : Address)
    (options nonce : UInt8) {payload : List UInt8} (plain : config.radioMetrics = false)
    (resolved : resolveKey given config = .ok key) (short : payload.length ≤ 255)
    (unannounced : (decodeFrame .fromFlags payload).header.messageId = none) :
    (reveal config (Hex.encodeUpper (Envelope.sealWith key a options nonce payload)) given false).result =
      .ok (.object
        [("address", .string a.render), ("message_id", .null), ("nonce", .integer nonce.toNat),
         ("opts", .integer options.toNat)] ::
        (decodeFrame .fromFlags payload).readings.map readingJson) := by
  obtain ⟨tag, opens⟩ := Envelope.revealWith_sealWith key a options nonce short
  have decoded := Hex.decodeLenient_encodeUpper (Envelope.sealWith_ne_nil key a options nonce payload)
  have made : (⟨key, .fromFlags, false || config.radioMetrics⟩ : UplinkReader).read Sink.collect
      (Envelope.sealWith key a options nonce payload) =
        .ok ⟨⟨a, options, nonce, payload, tag⟩, none, decodeFrame .fromFlags payload⟩ := by
    rw [plain, Bool.or_false, UplinkReader.read_plain, opens]
    rfl
  refine reveal_eq_ok_iff.mpr ⟨key, _, _, resolved, decoded, made, ?_⟩
  rw [uplinkJson_of_none unannounced]

/-! ## Lines of arguments -/

/-- The line of the field at a place among arguments: it has the key of the point with the label, the label
and an index for a name, and what stands behind the second colon for a text. The index is the position
or, without positions, the count of the arguments with the label up to this one. -/
def IsLineOf (positional : Bool) (arguments : List String) (i : Nat) (line : Json) : Prop :=
  ∃ argument label position value point n,
    arguments[i]? = some argument ∧ IsField argument label position value ∧
    point ∈ Registry.points ∧ point.label = label ∧ IsNumeral position n ∧
    line.member? "key" = some (.integer point.key.toNat) ∧
    line.member? "name" = some (.string (s!"{label}_{if positional then n
      else (arguments.take (i + 1)).countP fun other => labelOf other = label}")) ∧
    (point.encoding = .text → line.member? "text" = some (.string (String.ofList value)))

/-- The count of a field among those of its key is that of its argument among those with its label. -/
theorem indexAfter_of_parseFields {arguments : List String} {writes : List FieldWrite} {i : Nat}
    {w : FieldWrite} {point : Descriptor} (positional : Bool)
    (parsed : parseFields arguments = .ok writes) (here : writes[i]? = some w)
    (registered : point ∈ Registry.points) (key : w.key = point.key) :
    w.indexAfter positional (writes.take i) =
      if positional then w.position.toNat
      else (arguments.take (i + 1)).countP fun other => labelOf other = point.label := by
  cases positional with
  | true => rfl
  | false =>
    have counted := countP_key_of_parseFields parsed registered (i + 1)
    rw [List.take_add_one, here, Option.toList_some, List.countP_append, List.countP_singleton,
      if_pos (decide_eq_true key), ← key] at counted
    exact counted

theorem isLineOf_reading {positional : Bool} {arguments : List String} {writes : List FieldWrite}
    {i : Nat} {reading : Reading} (parsed : parseFields arguments = .ok writes)
    (delivered : (Frame.readingsAfter positional [] writes)[i]? = some reading) :
    IsLineOf positional arguments i (readingJson reading).shown := by
  rw [Frame.getElem?_readingsAfter] at delivered
  obtain ⟨w, here, rfl⟩ := Option.map_eq_some_iff.mp delivered
  have understood : (arguments.map parseField)[i]? = some (.ok w) := by
    rw [parseFields_eq_ok_iff.mp parsed, List.getElem?_map, here]
    rfl
  rw [List.getElem?_map] at understood
  obtain ⟨argument, there, made⟩ := Option.map_eq_some_iff.mp understood
  obtain ⟨label, position, value, point, n, field, known, natural, key, rfl, text⟩ := parseField_ok made
  obtain ⟨registered, rfl⟩ := Registry.lookupLabel?_some known
  have named : w.point = point := by rw [FieldWrite.point, key, Registry.lookup_key point registered]
  obtain ⟨keyed, called, told⟩ := member?_shown_readingJson
    (w.reading (w.indexAfter positional ([] ++ writes.take i)))
  obtain ⟨name, same⟩ := w.reading_name (w.indexAfter positional ([] ++ writes.take i))
  refine ⟨argument, point.label, position, value, point, _, there, field, registered, rfl, natural, ?_, ?_, ?_⟩
  · rw [keyed, same, key]
  · rw [called, name, named, List.nil_append,
      indexAfter_of_parseFields positional parsed here registered key]
  · intro textual
    rw [told, FieldWrite.reading_text (named.symm ▸ textual) (text textual)]
    rfl

/-- From the lines of the fields that are read there is read a line of each argument, in their order. -/
theorem lines_of_parseFields {arguments : List String} {writes : List FieldWrite} (positional : Bool)
    (parsed : parseFields arguments = .ok writes) :
    let lines := ((Frame.readingsAfter positional [] writes).map readingJson).map Json.render
    lines.length = arguments.length ∧ ∀ i text, lines[i]? = some text →
      ∃ line, Json.parse? text = some line ∧ IsLineOf positional arguments i line := by
  intro lines
  constructor
  · have count := congrArg List.length (parseFields_eq_ok_iff.mp parsed)
    rw [List.length_map, List.length_map] at count
    rw [List.length_map, List.length_map, Frame.length_readingsAfter, count]
  · intro i text here
    rw [List.getElem?_map, List.getElem?_map] at here
    obtain ⟨line, there, rfl⟩ := Option.map_eq_some_iff.mp here
    obtain ⟨reading, delivered, rfl⟩ := Option.map_eq_some_iff.mp there
    exact ⟨_, Json.parse?_render _, isLineOf_reading parsed delivered⟩

/-! ## Both commands -/

section Execute

variable {path : Option String} {file : FileContent} {config : Config} (command : Command)
  (loaded : configured path file = .ok config)

include loaded

/-- A command that comes to lines succeeds and prints them. -/
theorem execute_of_ok {lines : List Json} (made : (command.effect config).result = .ok lines) :
    (execute ⟨path, command⟩ file).exitCode = 0 ∧
      (execute ⟨path, command⟩ file).output = lines.map Json.render := by
  rw [← Invocation.effect_of_configured loaded command] at made
  rcases ((⟨path, command⟩ : Invocation).effect file).answer_cases with
    ⟨report, failed, -⟩ | ⟨lines, made', code, printed⟩
  · cases failed.symm.trans made
  · cases made'.symm.trans made
    exact ⟨code, printed⟩

/-- A command that succeeds comes to lines. -/
theorem ok_of_exitCode (succeeds : (execute ⟨path, command⟩ file).exitCode = 0) :
    ∃ lines, (command.effect config).result = .ok lines := by
  rw [← Invocation.effect_of_configured loaded command]
  rcases ((⟨path, command⟩ : Invocation).effect file).answer_cases with
    ⟨report, -, code, -⟩ | ⟨lines, made, -⟩
  · cases code.symm.trans succeeds
  · exact ⟨lines, made⟩

end Execute

/-- **What was sealed opens.** Where sealing succeeds without radio metrics, it prints a line from which an
envelope is read, and opening that with the same key succeeds. From the first line that is then printed the
address is read in upper case, no message identifier, and the options and the nonce that were given, or else the
configured ones. Behind it comes a line for each field argument, in their order. No line is broken in two. -/
theorem execute_reveal_sealFrame {path : Option String} {file : FileContent} {config : Config}
    {address : String} {given : Option String} {options nonce : Option UInt8} {arguments : List String}
    (loaded : configured path file = .ok config) (plain : config.radioMetrics = false)
    (succeeds : (execute ⟨path, .sealFrame address given options nonce arguments⟩ file).exitCode = 0) :
    ∃ (a : Address) (printed envelope payload header : String) (lines : List String),
      Address.parse address = .ok a ∧
      a.render.toList = (address.toList.filter fun c => !Text.isBlank c).map Char.toUpper ∧
      (execute ⟨path, .sealFrame address given options nonce arguments⟩ file).output = [printed] ∧
      Json.parse? printed = some (.object [("envelope", .string envelope), ("payload", .string payload)]) ∧
      Json.parse? header = some (.object
        [("address", .string a.render), ("message_id", .null),
         ("nonce", .integer (nonce.getD config.nonce).toNat),
         ("opts", .integer (options.getD config.options).toNat)]) ∧
      lines.length = arguments.length ∧
      (∀ i text, lines[i]? = some text →
        ∃ line, Json.parse? text = some line ∧ IsLineOf config.positional arguments i line) ∧
      (∀ text ∈ printed :: header :: lines, '\n' ∉ text.toList) ∧
      ∀ key, resolveKey key config = resolveKey given config →
        (execute ⟨path, .reveal envelope key false⟩ file).exitCode = 0 ∧
        (execute ⟨path, .reveal envelope key false⟩ file).output = header :: lines := by
  obtain ⟨made, result⟩ := ok_of_exitCode (.sealFrame address given options nonce arguments) loaded succeeds
  obtain ⟨-, output⟩ := execute_of_ok (.sealFrame address given options nonce arguments) loaded result
  obtain ⟨key, writes, payload, a, resolved, parsed, encoded, named, short, rfl⟩ := sealFrame_eq_ok_iff.mp result
  obtain ⟨unannounced, unset⟩ := config.messageId_frameHeader
  have announced : config.frameHeader.flags.hasMessageId = config.frameHeader.messageId.isSome := by
    rw [unannounced, unset]
    rfl
  have header := header_of_encoded announced encoded
  have readings := decodeFrame_of_encoded announced encoded
  rw [config.isPositional_frameHeader] at readings
  obtain ⟨count, each⟩ := lines_of_parseFields config.positional parsed
  rw [← readings] at count each
  have told := Json.parse?_render (.object
    [("address", .string a.render), ("message_id", .null), ("nonce", .integer (nonce.getD config.nonce).toNat),
     ("opts", .integer (options.getD config.options).toNat)])
  have unbroken (values : List Json) : ∀ text ∈ values.map Json.render, '\n' ∉ text.toList :=
    List.forall_mem_map.mpr fun value _ => value.newline_not_mem_render
  refine ⟨a, _, _, _, _, _, named, Address.toList_render named, output, Json.parse?_render _, told, count, each,
    unbroken (_ :: _ :: _), ?_⟩
  intro given' same
  rw [resolved] at same
  have opened := reveal_sealed a (options.getD config.options) (nonce.getD config.nonce) plain same short
    (by rw [header, unannounced])
  -- From here on the envelope is any text; unfolding it would compute the cipher.
  generalize Hex.encodeUpper (Envelope.sealWith key a (options.getD config.options)
    (nonce.getD config.nonce) payload) = envelope at opened ⊢
  exact execute_of_ok (.reveal envelope given' false) loaded opened

/-- Without positions the second text is counted as such; the colon in the first one is part of it. -/
theorem execute_reveal_sealFrame_texts :
    let key := some "000102030405060708090a0b0c0d0e0f"
    let arguments := ["string:1:a:b", "temp:2:20", "string:3:c"]
    let answer (command : Command) := execute ⟨none, command⟩ .missing
    configured none .missing = .ok Config.default ∧ Config.default.radioMetrics = false ∧
    (answer (.sealFrame "0a0b0c0d" key none (some 7) arguments)).exitCode = 0 ∧
    ∃ (printed envelope payload header : String) (lines : List String),
      (answer (.sealFrame "0a0b0c0d" key none (some 7) arguments)).output = [printed] ∧
      Json.parse? printed = some (.object [("envelope", .string envelope), ("payload", .string payload)]) ∧
      Json.parse? header = some (.object
        [("address", .string "0A0B0C0D"), ("message_id", .null), ("nonce", .integer 7), ("opts", .integer 0)]) ∧
      lines.length = 3 ∧
      (∀ i text, lines[i]? = some text →
        ∃ line, Json.parse? text = some line ∧ IsLineOf false arguments i line) ∧
      (∀ text ∈ printed :: header :: lines, '\n' ∉ text.toList) ∧
      (answer (.reveal envelope key false)).exitCode = 0 ∧
      (answer (.reveal envelope key false)).output = header :: lines := by
  intro key arguments answer
  have loaded : configured none .missing = .ok Config.default := rfl
  have resolved : resolveKey key Config.default =
      .ok ⟨#v[0, 1, 2, 3, 4, 5, 6, 7, 8, 9, 10, 11, 12, 13, 14, 15]⟩ :=
    eq_ok_of_toOption (by decide +kernel)
  have parsed : parseFields arguments = .ok [⟨32, 1, .text "a:b"⟩, ⟨1, 2, .number ⟨4626322717216342016⟩⟩,
      ⟨32, 3, .text "c"⟩] :=
    eq_ok_of_toOption (by decide +kernel)
  have encoded : encodeFrame Config.default.frameHeader
      [⟨32, 1, .text "a:b"⟩, ⟨1, 2, .number ⟨4626322717216342016⟩⟩, ⟨32, 3, .text "c"⟩] =
        .ok [0, 128, 13, 132, 233, 136, 19, 44, 144, 0, 177, 128] :=
    eq_ok_of_toOption (by decide +kernel)
  have named : Address.parse "0a0b0c0d" = .ok #v[10, 11, 12, 13] := eq_ok_of_toOption (by decide +kernel)
  have succeeds : (answer (.sealFrame "0a0b0c0d" key none (some 7) arguments)).exitCode = 0 := by
    exact (execute_of_ok (.sealFrame "0a0b0c0d" key none (some 7) arguments) loaded
      (sealFrame_eq_ok_iff.mpr ⟨_, _, _, _, resolved, parsed, encoded, named, by decide, rfl⟩)).1
  obtain ⟨a, printed, envelope, payload, header, lines, named', -, output, sealed, told, length, each, unbroken,
    opens⟩ := execute_reveal_sealFrame loaded rfl succeeds
  cases named.symm.trans named'
  obtain ⟨code, opened⟩ := opens key rfl
  exact ⟨loaded, rfl, succeeds, printed, envelope, payload, header, lines, output, sealed, told, length, each,
    unbroken, code, opened⟩

end CommandLine

end Telemetry
