import Telemetry.Droplet
import Telemetry.Envelope.Session
import Telemetry.Frame.Header
import Telemetry.Json.Reader

/-!
# Configuration

The settings of a deployment. They are written as a JSON object with one member for each setting, in
the order of `Setting.all`; an array of the values in that order is read as well. Every setting may
be left out and none may be given twice. A key that is no key is refused when the settings are read.
-/

namespace Telemetry

/-- The settings of a deployment. -/
structure Config where
  key : Option String
  /-- The options byte of envelopes that are sealed. -/
  options : UInt8
  /-- The nonce a session starts from. -/
  nonce : UInt8
  positional : Bool
  radioMetrics : Bool
  model : Option DropletModel
deriving DecidableEq, Repr

/-- Why there is no configuration, or no key in it. -/
inductive ConfigError where
  | unreadable (path reason : String)
  | malformed
  | invalidKey (error : EnvelopeError)
  | missingKey
deriving DecidableEq, Repr

def ConfigError.message : ConfigError → String
  | .unreadable path reason => "Failed to read " ++ path ++ ": " ++ reason
  | .malformed => "Invalid configuration JSON"
  | .invalidKey error => "Invalid aes_key: " ++ error.message
  | .missingKey => "No aes_key configured"

/-- The settings by name. -/
inductive Setting where
  | key
  | options
  | nonce
  | positional
  | radioMetrics
  | model
deriving DecidableEq, Repr

namespace Setting

/-- The settings in the order in which they are written. -/
def all : List Setting :=
  [.key, .options, .nonce, .positional, .radioMetrics, .model]

def name : Setting → String
  | .key => "aes_key"
  | .options => "default_opts"
  | .nonce => "initial_nonce"
  | .positional => "positional"
  | .radioMetrics => "radio_metrics"
  | .model => "legacy_model"

def ofName? (name : String) : Option Setting :=
  all.find? fun setting => setting.name = name

end Setting

namespace Config

def default : Config where
  key := none
  options := 0
  nonce := 0
  positional := false
  radioMetrics := false
  model := none

/-! ## Settings as JSON -/

/-- A value as a byte: an integer from 0 to 255. -/
def byte? : Json → Option UInt8
  | .integer value => if 0 ≤ value ∧ value < 256 then some (UInt8.ofNat value.toNat) else none
  | _ => none

def bool? : Json → Option Bool
  | .bool value => some value
  | _ => none

/-- A value as an optional text, null standing for none. -/
def text? : Json → Option (Option String)
  | .null => some none
  | .string value => some (some value)
  | _ => none

/-- A value as an optional model: null, its name, or an object with null under its name. -/
def model? : Json → Option (Option DropletModel)
  | .null => some none
  | .string name => (DropletModel.ofName? name).map some
  | .object [(name, .null)] => (DropletModel.ofName? name).map some
  | _ => none

/-- The settings with one of them given by a value. -/
def set? (config : Config) (value : Json) : Setting → Option Config
  | .key => (text? value).map fun key => { config with key := key }
  | .options => (byte? value).map fun options => { config with options := options }
  | .nonce => (byte? value).map fun nonce => { config with nonce := nonce }
  | .positional => (bool? value).map fun positional => { config with positional := positional }
  | .radioMetrics => (bool? value).map fun radioMetrics => { config with radioMetrics := radioMetrics }
  | .model => (model? value).map fun model => { config with model := model }

/-- The settings with more of them given, none of which was given before. -/
def setAll? (config : Config) (given : List Setting) : List (Setting × Json) → Option Config
  | [] => some config
  | (setting, value) :: rest =>
    if setting ∈ given then none
    else
      match config.set? value setting with
      | some config => config.setAll? (setting :: given) rest
      | none => none

/-- The members of an object by the settings they name. -/
def named? : List (String × Json) → Option (List (Setting × Json))
  | [] => some []
  | (name, value) :: rest => do
    let setting ← Setting.ofName? name
    let rest ← named? rest
    return (setting, value) :: rest

/-- The settings that a value gives: an object by name, or an array in order. -/
def ofJson? : Json → Option Config
  | .object members => (named? members).bind (default.setAll? [])
  | .array items =>
    if items.length ≤ Setting.all.length then default.setAll? [] (Setting.all.zip items) else none
  | _ => none

def get (config : Config) : Setting → Json
  | .key => config.key.elim .null .string
  | .options => .integer config.options.toNat
  | .nonce => .integer config.nonce.toNat
  | .positional => .bool config.positional
  | .radioMetrics => .bool config.radioMetrics
  | .model => config.model.elim .null fun model => .string model.name

def toJson (config : Config) : Json :=
  .object (Setting.all.map fun setting => (setting.name, config.get setting))

/-! ## Reading -/

/-- The key, read from its text. -/
def envelopeKey (config : Config) : Except ConfigError EnvelopeKey :=
  match config.key with
  | none => .error .missingKey
  | some text => (EnvelopeKey.parse text).mapError .invalidKey

/-- Read a configuration. A key that is given has to be one. -/
def parse (text : String) : Except ConfigError Config :=
  match (Json.parse? text).bind ofJson? with
  | none => .error .malformed
  | some config =>
    match config.envelopeKey with
    | .error (.invalidKey error) => .error (.invalidKey error)
    | _ => .ok config

def session (config : Config) : Session :=
  ⟨config.nonce⟩

def frameHeader (config : Config) : FrameHeader :=
  if config.positional then .positional else .uplink

end Config

/-- What was found where a file was looked for. -/
inductive FileContent where
  | text (content : String)
  /-- Bytes that are no text. -/
  | binary
  /-- No file, with the reason in words. -/
  | absent (reason : String)
deriving DecidableEq, Repr

namespace FileContent

def missing : FileContent := .absent "No such file or directory (os error 2)"

def directory : FileContent := .absent "Is a directory (os error 21)"

def notDirectory : FileContent := .absent "Not a directory (os error 20)"

def nameTooLong : FileContent := .absent "File name too long (os error 36)"

end FileContent

namespace Config

/-- Read the configuration found at a path. -/
def load (path : String) : FileContent → Except ConfigError Config
  | .text content => parse content
  | .binary => .error (.unreadable path "stream did not contain valid UTF-8")
  | .absent reason => .error (.unreadable path reason)

end Config

end Telemetry
