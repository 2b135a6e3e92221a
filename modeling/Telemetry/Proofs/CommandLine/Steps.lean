import Telemetry.CommandLine.Run
import Telemetry.Proofs.Envelope.Authentication
import Telemetry.Proofs.Uplink

/-!
# Commands step by step

A command prints while it runs, and what is printed is not taken back when a later step fails. So the
commands are told once more as steps in their order, with what has been printed and told as their state
(`Invocation.steps`): every check comes before the first line, and the steps come to what the command
answers (`Invocation.run_steps`). A command that fails has printed nothing, and opening prints only what
stands under a tag that was verified (`execute_prints`).
-/

namespace Telemetry.CommandLine

/-- What a program has written: its lines and its events. -/
structure Transcript where
  output : List String
  journal : Journal

/-- Steps that write, up to a report that ends them. What has been written outlives the report. -/
abbrev Steps := ExceptT Report (StateM Transcript)

namespace Steps

def print (line : Json) : Steps Unit :=
  modify fun t => { t with output := t.output ++ [line.render] }

def tell (events : Journal) : Steps Unit :=
  modify fun t => { t with journal := t.journal ++ events }

/-- Go on with a result, or end with the report of its error. -/
def check {ε α : Type} (result : Except ε α) (report : ε → Report) : Steps α :=
  MonadExcept.ofExcept (result.mapError report)

def showReading (reading : Reading) : Steps Unit := do
  tell [reading.event]
  print (readingJson reading)

def decode (payload : String) (framing : Framing) : Steps Unit := do
  let bytes ← check (Hex.decodeLenient payload) fun error =>
    ["payload is not valid hex", error.message]
  let frame := decodeFrame framing bytes
  tell frame.journal
  frame.readings.forM showReading
  tell [frame.summary.event]

def reveal (config : Config) (envelope : String) (key : Option String) (radio : Bool) : Steps Unit := do
  let key ← check (resolveKey key config) id
  let raw ← check (Hex.decodeLenient envelope) fun error => ["envelope is not valid hex", error.message]
  let reader : UplinkReader :=
    { key := key, framing := .fromFlags, radioMetrics := radio || config.radioMetrics }
  tell (reader.journal Sink.collect raw)
  let uplink ← check (reader.read Sink.collect raw) fun error => ["opening envelope", error.message]
  print (uplinkJson uplink)
  uplink.frame.readings.forM showReading
  tell [uplink.frame.summary.event]

def sealFrame (config : Config) (address : String) (key : Option String) (options nonce : Option UInt8)
    (fields : List String) : Steps Unit := do
  let key ← check (resolveKey key config) id
  let writes ← check (parseFields fields) id
  let payload ← check (encodeFrame config.frameHeader writes) fun error => [error.message]
  let session := nonce.elim config.session Session.mk
  let options := options.getD config.options
  let result := (session.encrypt key.bytes address options payload).1
  let envelope ← check result fun error => [error.message]
  tell (session.journal options payload result)
  print (.object
    [("envelope", .string (Hex.encodeUpper envelope)), ("payload", .string (Hex.encodeUpper payload))])

def legacy (config : Config) (payload : String) (model : Option String) : Steps Unit := do
  let model ← check (resolveModel model config) id
  let frame ← check (DropletFrame.parse model payload) dropletReport
  tell (match Hex.decodeLenient payload with
    | .ok bytes => DropletFrame.journal model bytes
    | .error _ => [])
  print (dropletJson model frame)

end Steps

/-- The steps of a command. -/
def Command.steps (config : Config) : Command → Steps Unit
  | .decode payload framing => Steps.decode payload framing
  | .reveal envelope key radio => Steps.reveal config envelope key radio
  | .sealFrame address key options nonce fields => Steps.sealFrame config address key options nonce fields
  | .legacy payload model => Steps.legacy config payload model

/-- The steps of what was asked for, from the configuration on. -/
def Invocation.steps (invocation : Invocation) (file : FileContent) : Steps Unit :=
  match invocation.configPath with
  | none => invocation.command.steps Config.default
  | some path => do
    let config ← Steps.check (Config.load path file) fun error =>
      ("loading configuration " ++ path) :: configReport error
    Steps.tell [⟨.info, "Loaded codec configuration from " ++ path⟩]
    invocation.command.steps config

/-! ## Running steps -/

namespace Steps

variable {ε α : Type} {next : Unit → Steps Unit} {t : Transcript}

theorem run_check_bind (result : Except ε α) (report : ε → Report) (next : α → Steps Unit)
    (t : Transcript) :
    (check result report >>= next).run.run t =
      match result with
      | .error error => (.error (report error), t)
      | .ok value => (next value).run.run t := by
  cases result <;> rfl

theorem run_tell_bind (events : Journal) :
    (tell events >>= next).run.run t = (next ()).run.run ⟨t.output, t.journal ++ events⟩ :=
  rfl

theorem run_print_bind (line : Json) :
    (print line >>= next).run.run t = (next ()).run.run ⟨t.output ++ [line.render], t.journal⟩ :=
  rfl

/-- Field after field is told and printed. -/
theorem run_showReadings_bind (readings : List Reading) :
    (readings.forM showReading >>= next).run.run t =
      (next ()).run.run ⟨t.output ++ (readings.map readingJson).map Json.render,
        t.journal ++ readings.map Reading.event⟩ := by
  induction readings generalizing t with
  | nil =>
    simp only [List.map_nil, List.append_nil]
    rfl
  | cons reading rest ih =>
    have first : ((reading :: rest).forM showReading >>= next).run.run t =
        (rest.forM showReading >>= next).run.run
          ⟨t.output ++ [(readingJson reading).render], t.journal ++ [reading.event]⟩ :=
      rfl
    rw [first, ih, List.append_assoc, List.append_assoc]
    rfl

end Steps

/-- What running steps comes to that have an effect, from a transcript on. -/
def Effect.after (effect : Effect) (t : Transcript) : Except Report Unit × Transcript :=
  (effect.result.map fun _ => (),
    ⟨t.output ++ effect.answer.output, t.journal ++ effect.journal⟩)

namespace Effect

theorem after_error (report : Report) (journal : Journal) (t : Transcript) :
    (⟨.error report, journal⟩ : Effect).after t = (.error report, ⟨t.output, t.journal ++ journal⟩) := by
  simp only [after, answer, List.append_nil]
  rfl

theorem after_failure (report : Report) (t : Transcript) :
    (failure report).after t = (.error report, t) := by
  rw [failure, after_error, List.append_nil]

theorem after_ok (lines : List Json) (journal : Journal) (t : Transcript) :
    (⟨.ok lines, journal⟩ : Effect).after t =
      (.ok (), ⟨t.output ++ lines.map Json.render, t.journal ++ journal⟩) :=
  rfl

theorem after_told (effect : Effect) (events : Journal) (t : Transcript) :
    effect.after ⟨t.output, t.journal ++ events⟩ =
      (⟨effect.result, events ++ effect.journal⟩ : Effect).after t := by
  obtain ⟨result, journal⟩ := effect
  cases result with
  | error report => rw [after_error, after_error, List.append_assoc]
  | ok lines => rw [after_ok, after_ok, List.append_assoc]

end Effect

namespace Steps

theorem run_decode (payload : String) (framing : Framing) (t : Transcript) :
    (decode payload framing).run.run t = (CommandLine.decode payload framing).after t := by
  unfold decode CommandLine.decode
  rw [run_check_bind]
  cases Hex.decodeLenient payload with
  | error error => rw [Effect.after_failure]
  | ok bytes =>
    dsimp only
    rw [run_tell_bind, run_showReadings_bind, showFrame, Effect.after_ok, ← List.append_assoc,
      ← List.append_assoc]
    rfl

theorem run_reveal (config : Config) (envelope : String) (key : Option String) (radio : Bool)
    (t : Transcript) :
    (reveal config envelope key radio).run.run t =
      (CommandLine.reveal config envelope key radio).after t := by
  unfold reveal CommandLine.reveal
  rw [run_check_bind]
  cases resolveKey key config with
  | error report => rw [Effect.after_failure]; rfl
  | ok key =>
    dsimp only
    rw [run_check_bind]
    cases Hex.decodeLenient envelope with
    | error error => rw [Effect.after_failure]
    | ok raw =>
      dsimp only
      rw [run_tell_bind, run_check_bind]
      cases UplinkReader.read _ Sink.collect raw with
      | error error => rw [Effect.after_error]
      | ok uplink =>
        dsimp only
        rw [run_print_bind, run_showReadings_bind, showFrame, Effect.after_ok, ← List.append_assoc,
          ← List.append_assoc, List.append_assoc t.output]
        rfl

theorem run_sealFrame (config : Config) (address : String) (key : Option String)
    (options nonce : Option UInt8) (fields : List String) (t : Transcript) :
    (sealFrame config address key options nonce fields).run.run t =
      (CommandLine.sealFrame config address key options nonce fields).after t := by
  unfold sealFrame CommandLine.sealFrame
  rw [run_check_bind]
  cases resolveKey key config with
  | error report => rw [Effect.after_failure]; rfl
  | ok key =>
    dsimp only
    rw [run_check_bind]
    cases parseFields fields with
    | error report => rw [Effect.after_failure]; rfl
    | ok writes =>
      dsimp only
      rw [run_check_bind]
      cases encodeFrame config.frameHeader writes with
      | error error => rw [Effect.after_failure]
      | ok payload =>
        dsimp only
        rw [run_check_bind]
        cases (Session.encrypt _ key.bytes address _ payload).1 with
        | error error => rw [Effect.after_failure]
        | ok envelope => rfl

theorem run_legacy (config : Config) (payload : String) (model : Option String) (t : Transcript) :
    (legacy config payload model).run.run t = (CommandLine.legacy config payload model).after t := by
  unfold legacy CommandLine.legacy
  rw [run_check_bind]
  cases resolveModel model config with
  | error report => rw [Effect.after_failure]; rfl
  | ok model =>
    dsimp only
    rw [run_check_bind]
    cases DropletFrame.parse model payload with
    | error error => rw [Effect.after_failure]
    | ok frame => rfl

end Steps

/-- The steps of a command come to its effect. -/
theorem Command.run_steps (config : Config) (command : Command) (t : Transcript) :
    (command.steps config).run.run t = (command.effect config).after t := by
  cases command with
  | decode payload framing => exact Steps.run_decode payload framing t
  | reveal envelope key radio => exact Steps.run_reveal config envelope key radio t
  | sealFrame address key options nonce fields =>
    exact Steps.run_sealFrame config address key options nonce fields t
  | legacy payload model => exact Steps.run_legacy config payload model t

/-- The configuration that a command runs under. -/
def configured (path : Option String) (file : FileContent) : Except ConfigError Config :=
  match path with
  | none => .ok Config.default
  | some path => Config.load path file

namespace Invocation

theorem effect_of_configured {path : Option String} {file : FileContent} {config : Config}
    (h : configured path file = .ok config) (command : Command) :
    ((⟨path, command⟩ : Invocation).effect file).result = (command.effect config).result := by
  cases path with
  | none =>
    cases h
    rfl
  | some path =>
    simp only [effect, show Config.load path file = .ok config from h]

theorem configured_of_effect {path : Option String} {file : FileContent} {command : Command}
    {lines : List Json} (h : ((⟨path, command⟩ : Invocation).effect file).result = .ok lines) :
    ∃ config, configured path file = .ok config := by
  cases path with
  | none => exact ⟨Config.default, rfl⟩
  | some path =>
    cases loaded : Config.load path file with
    | error error =>
      simp only [effect, loaded] at h
      cases h
    | ok config => exact ⟨config, loaded⟩

/-- **The steps come to the answer**, whatever was written before them. -/
theorem run_steps (invocation : Invocation) (file : FileContent) (t : Transcript) :
    (invocation.steps file).run.run t = (invocation.effect file).after t := by
  obtain ⟨path, command⟩ := invocation
  unfold steps effect
  cases path with
  | none => exact command.run_steps Config.default t
  | some path =>
    dsimp only
    rw [Steps.run_check_bind]
    cases Config.load path file with
    | error error => rw [Effect.after_failure]
    | ok config =>
      dsimp only
      rw [Steps.run_tell_bind, command.run_steps, Effect.after_told]
      rfl

end Invocation

/-! ## What is printed -/

theorem eq_ok_of_mapError {ε δ α : Type} {f : ε → δ} {result : Except ε α} {value : α}
    (h : result.mapError f = .ok value) : result = .ok value := by
  cases result with
  | error => cases h
  | ok => cases h; rfl

theorem resolveKey_ok {given : Option String} {config : Config} {key : EnvelopeKey}
    (h : resolveKey given config = .ok key) :
    ∃ text, (given <|> config.key) = some text ∧ EnvelopeKey.parse text = .ok key := by
  cases given with
  | some text => exact ⟨text, rfl, eq_ok_of_mapError h⟩
  | none =>
    have kept : config.envelopeKey = .ok key := eq_ok_of_mapError h
    unfold Config.envelopeKey at kept
    split at kept
    · cases kept
    · rename_i text there
      exact ⟨text, there, eq_ok_of_mapError kept⟩

/-- What the program was given without the radio metrics, if it ends with them. -/
def envelopePart (radio : Bool) (raw : List UInt8) : List UInt8 :=
  if radio then raw.take (raw.length - 2) else raw

theorem split_ok {reader : UplinkReader} {raw envelope : List UInt8} {radio : Option RadioMetrics}
    (h : reader.split raw = .ok (envelope, radio)) : envelope = envelopePart reader.radioMetrics raw := by
  obtain ⟨key, framing, metrics⟩ := reader
  cases metrics with
  | false =>
    cases h
    rfl
  | true =>
    simp only [UplinkReader.split, if_true] at h
    by_cases short : raw.length < 2
    · rw [RadioMetrics.split?_of_short short] at h
      cases h
    · rw [RadioMetrics.split?, if_neg short] at h
      cases h
      rfl

/-- What is read of an uplink stands under its tag. -/
theorem tag_of_read {reader : UplinkReader} {sink : Sink} {raw : List UInt8} {uplink : Uplink}
    (h : reader.read sink raw = .ok uplink) :
    let envelope := envelopePart reader.radioMetrics raw
    24 ≤ envelope.length ∧ envelope.length % 16 = 8 ∧
      envelope.drop (envelope.length - 4) =
        (Envelope.tag reader.key (envelope.take (envelope.length - 4))).toList := by
  unfold UplinkReader.read at h
  split at h
  · cases h
  · rename_i envelope radio parted
    split at h
    · cases h
    · rename_i opened revealed
      rw [← split_ok parted]
      unfold Envelope.revealWith at revealed
      split at revealed
      · cases revealed
      · rename_i bytes decrypted
        by_cases sized : 24 ≤ envelope.length ∧ envelope.length % 16 = 8
        · refine ⟨sized.1, sized.2, ?_⟩
          by_contra wrong
          rw [Envelope.decryptWith_of_tag sized wrong] at decrypted
          cases decrypted
        · rw [Envelope.decryptWith_of_length sized] at decrypted
          cases decrypted

/-- Opening comes to lines if and only if all of its checks pass. -/
theorem reveal_eq_ok_iff {config : Config} {envelope : String} {given : Option String} {radio : Bool}
    {lines : List Json} :
    (reveal config envelope given radio).result = .ok lines ↔
      ∃ key raw uplink, resolveKey given config = .ok key ∧ Hex.decodeLenient envelope = .ok raw ∧
        (⟨key, .fromFlags, radio || config.radioMetrics⟩ : UplinkReader).read Sink.collect raw =
          .ok uplink ∧
        lines = uplinkJson uplink :: uplink.frame.readings.map readingJson := by
  constructor
  · intro h
    unfold reveal at h
    split at h
    · cases h
    · rename_i key resolved
      split at h
      · cases h
      · rename_i raw decoded
        dsimp only at h
        split at h
        · cases h
        · rename_i uplink made
          cases h
          exact ⟨key, raw, uplink, resolved, decoded, made, rfl⟩
  · rintro ⟨key, raw, uplink, resolved, decoded, made, rfl⟩
    unfold reveal
    rw [resolved]
    dsimp only
    rw [decoded]
    dsimp only
    rw [made]
    rfl

theorem Effect.answer_cases (effect : Effect) :
    (∃ report, effect.result = .error report ∧ effect.answer.exitCode = 1 ∧ effect.answer.output = []) ∨
      ∃ lines, effect.result = .ok lines ∧ effect.answer.exitCode = 0 ∧
        effect.answer.output = lines.map Json.render := by
  obtain ⟨result, journal⟩ := effect
  cases result with
  | error report => exact .inl ⟨report, rfl, rfl, rfl⟩
  | ok lines => exact .inr ⟨lines, rfl, rfl, rfl⟩

/-- **All or nothing is printed.** The steps of a command print, behind whatever was printed before, the
lines that it answers. It ends with the code zero or one: with zero if and only if no step failed, and else
nothing has been printed by the steps that came before the failure. Opening prints only if the
configuration was read, the key that is given, or else the configured one, is a key, and what was given is
an envelope of a length that envelopes have whose last four bytes are the tag of those before them under
that key. -/
theorem execute_prints (invocation : Invocation) (file : FileContent) :
    let answer := execute invocation file
    (∀ before : Transcript,
      let after := (invocation.steps file).run.run before
      after.2.output = before.output ++ answer.output ∧
      (answer.exitCode = 0 ↔ after.1 = .ok ()) ∧
      (answer.exitCode ≠ 0 → answer.exitCode = 1 ∧ after.2.output = before.output)) ∧
    (answer.exitCode ≠ 0 → answer.output = []) ∧
    (∀ path envelope given radio, invocation = ⟨path, .reveal envelope given radio⟩ →
      answer.output ≠ [] → ∃ config text key raw,
        configured path file = .ok config ∧
        (given <|> config.key) = some text ∧ EnvelopeKey.parse text = .ok key ∧
        Hex.decodeLenient envelope = .ok raw ∧
        let part := envelopePart (radio || config.radioMetrics) raw
        24 ≤ part.length ∧ part.length % 16 = 8 ∧
          part.drop (part.length - 4) = (Envelope.tag key (part.take (part.length - 4))).toList) := by
  intro answer
  have same : answer.exitCode = (invocation.effect file).answer.exitCode ∧
      answer.output = (invocation.effect file).answer.output := ⟨rfl, rfl⟩
  refine ⟨?_, ?_, ?_⟩
  · intro before after
    have run : after = (invocation.effect file).after before := invocation.run_steps file before
    rw [run, same.1, same.2]
    rcases (invocation.effect file).answer_cases with ⟨report, failed, code, none⟩ | ⟨lines, made, code, -⟩
    · refine ⟨rfl, ?_, fun _ => ⟨code, ?_⟩⟩
      · simp [Effect.after, failed, code, Except.map]
      · simp only [Effect.after, none, List.append_nil]
    · refine ⟨rfl, ?_, fun other => absurd code other⟩
      simp [Effect.after, made, code, Except.map]
  · intro other
    rw [same.1] at other
    rw [same.2]
    rcases (invocation.effect file).answer_cases with ⟨-, -, -, none⟩ | ⟨-, -, code, -⟩
    · exact none
    · exact absurd code other
  · rintro path envelope given radio rfl printed
    rw [same.2] at printed
    rcases Effect.answer_cases _ with ⟨-, -, -, none⟩ | ⟨lines, made, -, -⟩
    · exact absurd none printed
    · obtain ⟨config, loaded⟩ := Invocation.configured_of_effect made
      rw [Invocation.effect_of_configured loaded] at made
      obtain ⟨key, raw, uplink, resolved, decoded, opened, -⟩ := reveal_eq_ok_iff.mp made
      obtain ⟨text, there, parsed⟩ := resolveKey_ok resolved
      exact ⟨config, text, key, raw, loaded, there, parsed, decoded, tag_of_read opened⟩

end Telemetry.CommandLine
