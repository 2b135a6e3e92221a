import Telemetry.Fault
import Telemetry.Main
import Telemetry.Proofs.Aes.Chaining
import Telemetry.Proofs.Bits.Ahead
import Telemetry.Proofs.Bits.Number
import Telemetry.Proofs.Bits.Refinement
import Telemetry.Proofs.Envelope.RoundTrip
import Telemetry.Proofs.Frame.Announcement
import Telemetry.Proofs.Frame.Layout
import Telemetry.Proofs.Frame.RoundTrip
import Telemetry.Proofs.Frame.Accounting
import Telemetry.Proofs.Bits.Agreement
import Telemetry.Proofs.Frame.Extension
import Telemetry.Proofs.Envelope.Authentication
import Telemetry.Proofs.Envelope.Nonces
import Telemetry.Proofs.Envelope.Resealing
import Telemetry.Proofs.Frame.Drafts
import Telemetry.Proofs.Frame.Scalars
import Telemetry.Proofs.Frame.Stopping
import Telemetry.Proofs.CommandLine.Steps
import Telemetry.Proofs.CommandLine.FieldArguments
import Telemetry.Proofs.Hex
import Telemetry.Proofs.Uplink
import Telemetry.Proofs.CommandLine.RoundTrip
import Telemetry.Proofs.Frame.Keys
import Telemetry.Proofs.Binary.Rounding
import Telemetry.Proofs.Binary.Arithmetic
import Telemetry.Proofs.Point.Quantization
import Telemetry.Proofs.Frame.Fields
import Telemetry.Proofs.Frame.Measurements
import Telemetry.Proofs.Frame.Names
import Telemetry.Proofs.Frame.Safety
import Telemetry.Proofs.Frame.Conversions
import Telemetry.Proofs.Point.Conversion
import Telemetry.Proofs.Hex.Grammar
import Telemetry.Proofs.Envelope.Parts
import Telemetry.Proofs.Droplet
import Telemetry.Proofs.Json
import Telemetry.Proofs.Config
import Telemetry.Proofs.Bits.Words
import Telemetry.Proofs.Binary.Nearest
import Telemetry.Proofs.Binary.Logarithm
import Telemetry.Proofs.Point.Width
import Telemetry.Proofs.Decimal.Shortest
import Telemetry.Proofs.Json.Numerals
