import Telemetry.Decimal.Numeral
import Telemetry.Frame.Header

/-!
# Command-line arguments

What the words of a command line ask for. A `Grammar` says which options a command takes and how many
operands; `Grammar.scan` sorts the words into a `Parsed` by it. An option is given by its long name
behind two hyphens or its letter behind one, its value in the same word or in the next one; a word of
two hyphens ends the options. Options are given once, save those that collect values.
-/

namespace Telemetry.CommandLine

/-- Why the words ask for nothing that can be done. -/
inductive Refusal where
  | help
  | usage
deriving DecidableEq, Repr

/-- What an option takes. -/
inductive Arity where
  | flag
  | single
  /-- One value each time it is given. -/
  | repeated
deriving DecidableEq, Repr

/-- What the value of an option has to be. -/
inductive ValueForm where
  | text
  /-- A text that is not empty. -/
  | path
  /-- An integer from 0 to 255. -/
  | byte
  /-- The name of a framing. -/
  | framing
deriving DecidableEq, Repr

/-- A text as a byte: an integer from 0 to 255, with a sign if need be. -/
def byte? (text : String) : Option UInt8 :=
  match parseInteger? text.toList with
  | some value => if 0 ≤ value ∧ value < 256 then some (UInt8.ofNat value.toNat) else none
  | none => none

/-- The framing with a name. -/
def framing? : String → Option Framing
  | "flags" => some .fromFlags
  | "uplink" => some .uplink
  | "response" => some .response
  | _ => none

def ValueForm.accepts (form : ValueForm) (value : String) : Bool :=
  match form with
  | .text => true
  | .path => value ≠ ""
  | .byte => (byte? value).isSome
  | .framing => (framing? value).isSome

/-- An option that a command takes. -/
structure OptionSpec where
  name : String
  letter : Option Char
  arity : Arity
  /-- What its value has to be; any text for a flag, which has none. -/
  form : ValueForm
deriving DecidableEq, Repr

/-- The options and the number of operands that a command takes. -/
structure Grammar where
  options : List OptionSpec
  operands : Nat
deriving DecidableEq, Repr

/-- The words of a command line, sorted. -/
structure Parsed where
  /-- The names of the options given, each with its value; a flag has an empty one. -/
  options : List (String × String)
  operands : List String
deriving DecidableEq, Repr

namespace Parsed

def empty : Parsed := ⟨[], []⟩

def values (parsed : Parsed) (name : String) : List String :=
  (parsed.options.filter fun given => given.1 = name).map (·.2)

def value? (parsed : Parsed) (name : String) : Option String :=
  (parsed.values name).head?

def has (parsed : Parsed) (name : String) : Bool :=
  !(parsed.values name).isEmpty

end Parsed

def helpOption : OptionSpec := ⟨"help", some 'h', .flag, .text⟩

/-- The option that names a configuration, which every command takes. -/
def configOption : OptionSpec := ⟨"config", some 'c', .single, .path⟩

namespace Grammar

def named? (g : Grammar) (name : String) : Option OptionSpec :=
  g.options.find? fun spec => spec.name = name

def lettered? (g : Grammar) (letter : Char) : Option OptionSpec :=
  g.options.find? fun spec => spec.letter = some letter

def add (parsed : Parsed) (spec : OptionSpec) (value : String) : Except Refusal Parsed :=
  if spec = helpOption then .error .help
  else if !spec.form.accepts value then .error .usage
  else if spec.arity ≠ .repeated ∧ parsed.has spec.name then .error .usage
  else .ok { parsed with options := parsed.options ++ [(spec.name, value)] }

def addOperand (g : Grammar) (parsed : Parsed) (word : String) : Except Refusal Parsed :=
  if parsed.operands.length < g.operands then
    .ok { parsed with operands := parsed.operands ++ [word] }
  else .error .usage

/-- What the words so far leave open. -/
inductive Expecting where
  | anything
  | value (spec : OptionSpec)
  | operands
deriving DecidableEq, Repr

/-- Read an option given by name, behind its two hyphens. -/
def readLong (g : Grammar) (parsed : Parsed) (word : List Char) : Except Refusal (Parsed × Expecting) :=
  let name := String.ofList (word.takeWhile (· ≠ '='))
  let attached := match word.dropWhile (· ≠ '=') with
    | _ :: value => some (String.ofList value)
    | [] => none
  match g.named? name with
  | none => .error .usage
  | some spec =>
    match spec.arity, attached with
    | .flag, none => (add parsed spec "").map fun parsed => (parsed, .anything)
    | .flag, some _ => .error .usage
    | _, some value => (add parsed spec value).map fun parsed => (parsed, .anything)
    | _, none => .ok (parsed, .value spec)

/-- Read options given by letter, behind their hyphen. -/
def readShort (g : Grammar) : Parsed → List Char → Except Refusal (Parsed × Expecting)
  | parsed, [] => .ok (parsed, .anything)
  | parsed, letter :: rest =>
    match g.lettered? letter with
    | none => .error .usage
    | some spec =>
      match spec.arity with
      | .flag =>
        match add parsed spec "" with
        | .ok parsed => readShort g parsed rest
        | .error refusal => .error refusal
      | _ =>
        match rest with
        | [] => .ok (parsed, .value spec)
        | '=' :: value => (add parsed spec (String.ofList value)).map fun parsed => (parsed, .anything)
        | value => (add parsed spec (String.ofList value)).map fun parsed => (parsed, .anything)

def readWord (g : Grammar) (parsed : Parsed) (expecting : Expecting) (word : String) :
    Except Refusal (Parsed × Expecting) :=
  match expecting with
  | .operands => (g.addOperand parsed word).map fun parsed => (parsed, .operands)
  | .value spec =>
    match word.toList with
    | '-' :: _ :: _ => .error .usage
    | _ => (add parsed spec word).map fun parsed => (parsed, .anything)
  | .anything =>
    match word.toList with
    | ['-', '-'] => .ok (parsed, .operands)
    | '-' :: '-' :: name => g.readLong parsed name
    | '-' :: letter :: rest => g.readShort parsed (letter :: rest)
    | _ => (g.addOperand parsed word).map fun parsed => (parsed, .anything)

/-- Sort words by the grammar, on top of those that have been sorted. -/
def scan (g : Grammar) : Parsed → Expecting → List String → Except Refusal Parsed
  | _, .value _, [] => .error .usage
  | parsed, _, [] => .ok parsed
  | parsed, expecting, word :: rest =>
    match g.readWord parsed expecting word with
    | .ok (parsed, expecting) => g.scan parsed expecting rest
    | .error refusal => .error refusal

end Grammar

/-! ## Commands -/

/-- What the program can be asked to do. -/
inductive Command where
  | decode (payload : String) (framing : Framing)
  /-- Open an uplink and read the frame inside. -/
  | reveal (envelope : String) (key : Option String) (radio : Bool)
  | sealFrame (address : String) (key : Option String) (options nonce : Option UInt8)
      (fields : List String)
  | legacy (payload : String) (model : Option String)
deriving DecidableEq, Repr

/-- A command, and where the configuration is. -/
structure Invocation where
  configPath : Option String
  command : Command
deriving DecidableEq, Repr

/-- A command by the word that asks for it: what it takes, and how that is understood. -/
structure CommandSpec where
  name : String
  grammar : Grammar
  command : Parsed → Except Refusal Command

/-- The options of a command, with those that every command takes. -/
def grammarOf (options : List OptionSpec) (operands : Nat) : Grammar :=
  ⟨options ++ [configOption, helpOption], operands⟩

def keyOption : OptionSpec := ⟨"key", some 'k', .single, .text⟩

def commands : List CommandSpec :=
  [{ name := "decode"
     grammar := grammarOf [⟨"framing", none, .single, .framing⟩] 1
     command := fun parsed =>
       match parsed.operands, framing? ((parsed.value? "framing").getD "flags") with
       | [payload], some framing => .ok (.decode payload framing)
       | _, _ => .error .usage },
   { name := "open"
     grammar := grammarOf [keyOption, ⟨"radio", none, .flag, .text⟩] 1
     command := fun parsed =>
       match parsed.operands with
       | [envelope] => .ok (.reveal envelope (parsed.value? "key") (parsed.has "radio"))
       | _ => .error .usage },
   { name := "seal"
     grammar :=
       grammarOf
         [⟨"address", some 'a', .single, .text⟩, keyOption, ⟨"opts", none, .single, .byte⟩,
          ⟨"nonce", none, .single, .byte⟩, ⟨"field", some 'f', .repeated, .text⟩] 0
     command := fun parsed =>
       match parsed.value? "address", parsed.values "field" with
       | some address, field :: fields =>
         .ok (.sealFrame address (parsed.value? "key") ((parsed.value? "opts").bind byte?)
           ((parsed.value? "nonce").bind byte?) (field :: fields))
       | _, _ => .error .usage },
   { name := "legacy"
     grammar := grammarOf [⟨"model", some 'm', .single, .text⟩] 1
     command := fun parsed =>
       match parsed.operands with
       | [payload] => .ok (.legacy payload (parsed.value? "model"))
       | _ => .error .usage }]

/-- The options in front of a command, and the words from the command on. -/
def scanCommon : Parsed → Grammar.Expecting → List String → Except Refusal (Parsed × List String)
  | _, _, [] => .error .usage
  | parsed, expecting, word :: rest =>
    if expecting = .anything ∧ ¬ word.startsWith "-" then .ok (parsed, word :: rest)
    else
      match (grammarOf [] 0).readWord parsed expecting word with
      | .ok (parsed, expecting) => scanCommon parsed expecting rest
      | .error refusal => .error refusal

/-- What follows the word that asks for help is nothing or the name of one command. -/
def isTopic : List String → Bool
  | [] => true
  | [name] => name = "help" || commands.any fun spec => spec.name = name
  | _ => false

/-- What the words of a command line ask for. A configuration given behind the command counts. -/
def parse (words : List String) : Except Refusal Invocation := do
  let (common, rest) ← scanCommon .empty .anything words
  match rest with
  | [] => .error .usage
  | "help" :: topic => .error (if isTopic topic then .help else .usage)
  | name :: rest =>
    match commands.find? fun spec => spec.name = name with
    | none => .error .usage
    | some spec =>
      let parsed ← spec.grammar.scan .empty .anything rest
      let command ← spec.command parsed
      return ⟨parsed.value? configOption.name <|> common.value? configOption.name, command⟩

end Telemetry.CommandLine
