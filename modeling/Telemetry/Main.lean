import Telemetry.CommandLine.Run

/-!
# The program

Reads the command line and the configuration file, and prints what the command answers.
-/

namespace Telemetry.CommandLine

/-- How the program is used. -/
def usage : String :=
  "Read and build frames of sensor telemetry

Usage: telemetry [-c CONFIG] COMMAND

Commands:
  decode PAYLOAD [--framing flags|uplink|response]
  open ENVELOPE [-k KEY] [--radio]
  seal -a ADDRESS [-k KEY] [--opts OPTS] [--nonce NONCE] -f LABEL:POSITION:VALUE...
  legacy PAYLOAD [-m MODEL]
  help"

/-- What is found at a path. -/
def readContent (path : String) : IO FileContent := do
  match ← (IO.FS.readBinFile path).toBaseIO with
  | .error (.noFileOrDirectory ..) => return .missing
  | .error (.inappropriateType _ 21 _) => return .directory
  | .error (.inappropriateType ..) => return .notDirectory
  | .error error => return .absent (toString error)
  | .ok bytes =>
    match String.fromUTF8? bytes with
    | some content => return .text content
    | none => return .binary

end Telemetry.CommandLine

open Telemetry CommandLine

/-- Run the program. -/
def main (words : List String) : IO UInt32 := do
  match CommandLine.parse words with
  | .error .help =>
    IO.println CommandLine.usage
    return 0
  | .error .usage =>
    IO.eprintln CommandLine.usage
    return 2
  | .ok invocation =>
    let file ← match invocation.configPath with
      | some path => readContent path
      | none => pure .missing
    let answer := CommandLine.execute invocation file
    for event in answer.journal do
      IO.eprintln (event.severity.label ++ " " ++ event.message)
    for line in answer.output do
      IO.println line
    for line in Report.lines answer.report do
      IO.eprintln line
    return answer.exitCode
