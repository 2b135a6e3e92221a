import Telemetry.CommandLine.Arguments
import Telemetry.Config
import Telemetry.Frame.Draft
import Telemetry.Uplink

/-!
# Commands carried out

What a command answers, as a function of the configuration file it was given: the lines it prints, the
events it tells, and a report where it fails (`execute`). A command that fails prints no line.
-/

namespace Telemetry.CommandLine

/-- What went wrong, followed by what caused it, one cause after the other. -/
abbrev Report := List String

/-- A text behind a mark, as lines: those after the first are indented as far as the mark reaches. -/
def markedLines (mark text : String) : List String :=
  match text.splitOn "\n" with
  | [] => [mark]
  | first :: rest =>
    (mark ++ first) :: rest.map fun line => String.ofList (List.replicate mark.length ' ') ++ line

/-- The causes from the given number on, each behind its number. -/
def numberedCauses : (number : Nat) → List String → List String
  | _, [] => []
  | number, cause :: rest =>
    let digits := toString number
    let mark := String.ofList (List.replicate (5 - digits.length) ' ') ++ digits ++ ": "
    markedLines mark cause ++ numberedCauses (number + 1) rest

/-- A report as lines. Causes are indented, and numbered where there are several. -/
def Report.lines : Report → List String
  | [] => []
  | [fault] => faultLines fault
  | [fault, cause] => faultLines fault ++ ["", "Caused by:"] ++ markedLines "    " cause
  | fault :: causes => faultLines fault ++ ["", "Caused by:"] ++ numberedCauses 0 causes
where
  /-- What went wrong, as lines, none of them indented. -/
  faultLines (fault : String) : List String := ("Error: " ++ fault).splitOn "\n"

/-- What a command answers. -/
structure Answer where
  exitCode : UInt32
  output : List String
  journal : Journal
  report : Report
deriving DecidableEq, Repr

/-- What a command comes to: its lines or a report, and its events. -/
structure Effect where
  result : Except Report (List Json)
  journal : Journal

namespace Effect

def failure (report : Report) : Effect := ⟨.error report, []⟩

def answer (effect : Effect) : Answer :=
  match effect.result with
  | .ok lines => ⟨0, lines.map Json.render, effect.journal, []⟩
  | .error report => ⟨1, [], effect.journal, report⟩

end Effect

/-! ## Reports -/

def configReport : ConfigError → Report
  | .unreadable path reason => [(ConfigError.unreadable path reason).message, reason]
  | error => [error.message]

def dropletReport : DropletError → Report
  | .invalidHex error => [(DropletError.invalidHex error).message, error.message]
  | error => [error.message]

/-! ## Lines -/

/-- A text if there is one, as a member of an object. -/
def optionalMember (name : String) : Option String → List (String × Json)
  | some text => [(name, .string text)]
  | none => []

/-- A field as a line. -/
def readingJson (reading : Reading) : Json :=
  .object
    (optionalMember "error" (reading.error.map FieldError.message) ++
      [("key", .integer reading.key.toNat), ("name", .string reading.name)] ++
      optionalMember "text" reading.text ++
      [("value", .number reading.value)])

/-- Radio metrics as members of an object. -/
def radioMembers (radio : RadioMetrics) : List (String × Json) :=
  [("rssi", .integer radio.rssi), ("snr", .number radio.snr)]

/-- What an envelope says of itself, as a line. -/
def uplinkJson (uplink : Uplink) : Json :=
  .object
    ([("address", .string uplink.opened.address.render),
      ("message_id", uplink.frame.header.messageId.elim .null fun id => .integer id.toNat),
      ("nonce", .integer uplink.opened.nonce.toNat),
      ("opts", .integer uplink.opened.options.toNat)] ++
      uplink.radio.elim [] radioMembers)

/-- The frame of a sensor as a line, the measurements in the order of their labels. -/
def dropletJson (model : DropletModel) (frame : DropletFrame) : Json :=
  let measurements := frame.measurements.mergeSort fun a b => a.label ≤ b.label
  .object
    ([("address", .string frame.address.render),
      ("model", .string model.name),
      ("readings", .object (measurements.map fun m => (m.label, .number m.value)))] ++
      radioMembers frame.radio)

/-! ## Commands -/

/-- The key to use: the given one, or else the configured one. -/
def resolveKey (given : Option String) (config : Config) : Except Report EnvelopeKey :=
  match given with
  | some text => (EnvelopeKey.parse text).mapError fun error => [error.message]
  | none => config.envelopeKey.mapError fun error => "no --key given" :: configReport error

/-- A text up to the first colon and from behind it on. -/
def splitColon? (text : List Char) : Option (List Char × List Char) :=
  match text.dropWhile (· ≠ ':') with
  | _ :: rest => some (text.takeWhile (· ≠ ':'), rest)
  | [] => none

/-- The label, the position and the value of a field argument; further colons belong to the value. -/
def splitField? (argument : String) : Option (String × List Char × List Char) := do
  let (label, rest) ← splitColon? argument.toList
  let (position, value) ← splitColon? rest
  return (String.ofList label, position, value)

/-- Understand a field argument. -/
def parseField (argument : String) : Except Report FieldWrite :=
  match splitField? argument with
  | none => .error ["field " ++ Text.quoted argument ++ " is not label:position:value"]
  | some (label, position, value) =>
    match Registry.lookupLabel? label with
    | none => .error ["unknown field label " ++ Text.quoted label]
    | some point =>
      match parseNatural 255 position with
      | .error error => .error ["bad position in " ++ Text.quoted argument, error.message]
      | .ok position =>
        if point.encoding = .text then
          .ok ⟨point.key, UInt8.ofNat position, .text (String.ofList value)⟩
        else
          match parseReal value with
          | .error error => .error ["bad numeric value in " ++ Text.quoted argument, error.message]
          | .ok number => .ok ⟨point.key, UInt8.ofNat position, .number number⟩

/-- Understand field arguments, up to the first that is none. -/
def parseFields : List String → Except Report (List FieldWrite)
  | [] => .ok []
  | argument :: rest =>
    match parseField argument with
    | .error report => .error report
    | .ok field => (parseFields rest).map (field :: ·)

/-- The lines and the events of a frame being shown. -/
def showFrame (frame : FrameReading) : List Json × Journal :=
  (frame.readings.map readingJson, frame.readings.map Reading.event ++ [frame.summary.event])

def decode (payload : String) (framing : Framing) : Effect :=
  match Hex.decodeLenient payload with
  | .error error => .failure ["payload is not valid hex", error.message]
  | .ok bytes =>
    let frame := decodeFrame framing bytes
    let (lines, shown) := showFrame frame
    ⟨.ok lines, frame.journal ++ shown⟩

def reveal (config : Config) (envelope : String) (key : Option String) (radio : Bool) : Effect :=
  match resolveKey key config with
  | .error report => .failure report
  | .ok key =>
    match Hex.decodeLenient envelope with
    | .error error => .failure ["envelope is not valid hex", error.message]
    | .ok raw =>
      let reader : UplinkReader :=
        { key := key, framing := .fromFlags, radioMetrics := radio || config.radioMetrics }
      let journal := reader.journal Sink.collect raw
      match reader.read Sink.collect raw with
      | .error error => ⟨.error ["opening envelope", error.message], journal⟩
      | .ok uplink =>
        let (lines, shown) := showFrame uplink.frame
        ⟨.ok (uplinkJson uplink :: lines), journal ++ shown⟩

def sealFrame (config : Config) (address : String) (key : Option String) (options nonce : Option UInt8)
    (fields : List String) : Effect :=
  match resolveKey key config with
  | .error report => .failure report
  | .ok key =>
    match parseFields fields with
    | .error report => .failure report
    | .ok writes =>
      match encodeFrame config.frameHeader writes with
      | .error error => .failure [error.message]
      | .ok payload =>
        let session := nonce.elim config.session Session.mk
        let options := options.getD config.options
        let result := (session.encrypt key.bytes address options payload).1
        match result with
        | .error error => .failure [error.message]
        | .ok envelope =>
          ⟨.ok
            [.object
              [("envelope", .string (Hex.encodeUpper envelope)),
               ("payload", .string (Hex.encodeUpper payload))]],
           session.journal options payload result⟩

/-- The model to use: the given one, or else the configured one. -/
def resolveModel (given : Option String) (config : Config) : Except Report DropletModel :=
  match given, config.model with
  | some name, _ => (DropletModel.parse name).mapError dropletReport
  | none, some model => .ok model
  | none, none => .error ["no --model given and none configured"]

def legacy (config : Config) (payload : String) (model : Option String) : Effect :=
  match resolveModel model config with
  | .error report => .failure report
  | .ok model =>
    match DropletFrame.parse model payload with
    | .error error => .failure (dropletReport error)
    | .ok frame =>
      ⟨.ok [dropletJson model frame],
       match Hex.decodeLenient payload with
       | .ok bytes => DropletFrame.journal model bytes
       | .error _ => []⟩

def Command.effect (config : Config) : Command → Effect
  | .decode payload framing => CommandLine.decode payload framing
  | .reveal envelope key radio => CommandLine.reveal config envelope key radio
  | .sealFrame address key options nonce fields =>
    CommandLine.sealFrame config address key options nonce fields
  | .legacy payload model => CommandLine.legacy config payload model

/-- Carry out what was asked for, with the file found where the configuration should be. -/
def Invocation.effect (invocation : Invocation) (file : FileContent) : Effect :=
  match invocation.configPath with
  | none => invocation.command.effect Config.default
  | some path =>
    match Config.load path file with
    | .error error => .failure (("loading configuration " ++ path) :: configReport error)
    | .ok config =>
      let effect := invocation.command.effect config
      { effect with journal := ⟨.info, "Loaded codec configuration from " ++ path⟩ :: effect.journal }

/-- Carry out what was asked for, as a program does: only events that warn are told. -/
def execute (invocation : Invocation) (file : FileContent) : Answer :=
  let answer := (invocation.effect file).answer
  { answer with journal := answer.journal.upTo (some .warn) }

end Telemetry.CommandLine
