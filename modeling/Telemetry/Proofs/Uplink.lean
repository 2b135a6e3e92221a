import Telemetry.Fault
import Telemetry.Uplink
import Telemetry.Proofs.Envelope.RoundTrip

/-!
# Uplinks are envelopes with frames inside

Reading an uplink is opening its envelope and reading the frame inside, under whatever framing and into
whatever sink (`UplinkReader.read_plain`); two bytes of radio metrics behind it change nothing but the
metrics that are told (`UplinkReader.read_append`). A sink lives on from one uplink to the next, and an
error does not take back what it has been handed. So the steps of a reading are told once more in order,
with what the sink has been handed as their state (`UplinkReader.feed`): all that can be refused is
refused before the frame is read, and a refused uplink leaves the sink as it was.
-/

namespace Telemetry

/-- An error that a step meets keeps the state that it meets. -/
theorem run_ofExcept_bind {ε σ α β : Type} (result : Except ε α) (next : α → ExceptT ε (StateM σ) β)
    (state : σ) :
    (MonadExcept.ofExcept result >>= next : ExceptT ε (StateM σ) β).run.run state =
      match result with
      | .error error => (.error error, state)
      | .ok value => (next value).run.run state := by
  cases result <;> rfl

/-! ## Radio metrics -/

namespace RadioMetrics

theorem split?_of_short {raw : List UInt8} (short : raw.length < 2) : split? raw = none := by
  rw [split?, if_pos short]

theorem split?_append (envelope : List UInt8) (rssi snr : UInt8) :
    split? (envelope ++ [rssi, snr]) = some (envelope, ofBytes rssi snr) := by
  have long : ¬ (envelope ++ [rssi, snr]).length < 2 := by simp
  rw [split?, if_neg long]
  simp

/-- Quarters of a decibel are told without rounding. -/
theorem snr_ofBytes (rssi snr : UInt8) :
    (ofBytes rssi snr).snr.isFinite = true ∧
      (ofBytes rssi snr).snr.toRat = (snr.toInt8.toInt : Rat) / 4 := by
  have all : ∀ n < 256, (ofBytes 0 (UInt8.ofNat n)).snr.isFinite = true ∧
      (ofBytes 0 (UInt8.ofNat n)).snr.toRat = ((UInt8.ofNat n).toInt8.toInt : Rat) / 4 := by
    decide +kernel
  have here := all snr.toNat snr.toNat_lt
  rwa [UInt8.ofNat_toNat] at here

end RadioMetrics

namespace UplinkReader

section Reading

variable {key : EnvelopeKey} {framing : Framing}

/-- Without radio metrics an uplink is an envelope. -/
theorem read_plain (key : EnvelopeKey) (framing : Framing) (sink : Sink) (raw : List UInt8) :
    (⟨key, framing, false⟩ : UplinkReader).read sink raw =
      (Envelope.revealWith key raw).map fun opened =>
        ⟨opened, none, Frame.read framing sink opened.payload⟩ := by
  simp only [read, split, Bool.false_eq_true, if_false]
  cases Envelope.revealWith key raw <;> rfl

/-- Behind the envelope the two bytes of the metrics change nothing but the metrics. -/
theorem read_append (key : EnvelopeKey) (framing : Framing) (sink : Sink) (envelope : List UInt8)
    (rssi snr : UInt8) :
    (⟨key, framing, true⟩ : UplinkReader).read sink (envelope ++ [rssi, snr]) =
      ((⟨key, framing, false⟩ : UplinkReader).read sink envelope).map fun uplink =>
        { uplink with radio := some (.ofBytes rssi snr) } := by
  rw [read_plain]
  simp only [read, split, if_true, RadioMetrics.split?_append]
  cases Envelope.revealWith key envelope <;> rfl

theorem read_of_short {raw : List UInt8} (sink : Sink) (short : raw.length < 2) :
    (⟨key, framing, true⟩ : UplinkReader).read sink raw = .error (.invalidLength raw.length) := by
  simp only [read, split, if_true, RadioMetrics.split?_of_short short]

theorem openAndDecode_bytes (key : EnvelopeKey) (raw : List UInt8) :
    openAndDecode key.bytes raw =
      (((⟨key, .fromFlags, false⟩ : UplinkReader).read Sink.collect raw).map Uplink.frame).mapError
        .envelope := by
  rw [read_plain, openAndDecode, Envelope.reveal_bytes]
  cases Envelope.revealWith key raw <;> rfl

end Reading

/-! ## What the sink has been handed -/

/-- Read a frame into a sink that has been handed other things before. -/
def feedFrame (framing : Framing) (sink : Sink) (payload : List UInt8) :
    StateM (List Delivery) FrameSummary := do
  let before ← get
  let frame := Frame.read framing (fun deliveries => sink (before ++ deliveries)) payload
  set (before ++ frame.deliveries)
  return frame.summary

/-- The steps of a reading in order, where all that the sink has been handed outlives an error. -/
def feed (reader : UplinkReader) (sink : Sink) (raw : List UInt8) :
    ExceptT EnvelopeError (StateM (List Delivery))
      (OpenedEnvelope × Option RadioMetrics × FrameSummary) := do
  let (envelope, radio) ← MonadExcept.ofExcept (reader.split raw)
  let opened ← MonadExcept.ofExcept (Envelope.revealWith reader.key envelope)
  let summary ← feedFrame reader.framing sink opened.payload
  return (opened, radio, summary)

/-- The steps come to the same as the reading: a refused uplink adds nothing to what the sink has been
handed, and any other adds what is delivered of its frame. -/
theorem run_feed (reader : UplinkReader) (sink : Sink) (raw : List UInt8) (before : List Delivery) :
    (reader.feed sink raw).run.run before =
      match reader.read (fun deliveries => sink (before ++ deliveries)) raw with
      | .error error => (.error error, before)
      | .ok uplink =>
        (.ok (uplink.opened, uplink.radio, uplink.frame.summary), before ++ uplink.frame.deliveries) := by
  unfold feed read
  -- Both steps that can fail come before the sink is handed anything, so an error meets `before`.
  rw [run_ofExcept_bind]
  cases reader.split raw with
  | error error => rfl
  | ok split =>
    obtain ⟨envelope, radio⟩ := split
    dsimp only
    rw [run_ofExcept_bind]
    cases Envelope.revealWith reader.key envelope with
    | error error => rfl
    | ok opened => rfl

/-- **Uplinks are envelopes with frames inside.** Without radio metrics an uplink is read if and only if
the envelope opens, and refused with the same error; what is told then is what opening gives and what is
read of the frame in the payload. If the flags say whether an identifier follows, this is what opening and
decoding gives. Two bytes behind the envelope are told as radio metrics and change nothing else; fewer
bytes than two are no uplink. When an uplink is refused, by any reader, the sink has been handed what it had
been handed before, and otherwise all that is delivered of the frame behind that. -/
theorem read_factors (key : EnvelopeKey) (framing : Framing) (sink : Sink) (raw : List UInt8) :
    let plain : UplinkReader := ⟨key, framing, false⟩
    let radio : UplinkReader := ⟨key, framing, true⟩
    (∀ error, plain.read sink raw = .error error ↔ Envelope.reveal key.bytes raw = .error error) ∧
    (∀ opened, Envelope.reveal key.bytes raw = .ok opened →
      plain.read sink raw = .ok ⟨opened, none, Frame.read framing sink opened.payload⟩) ∧
    (∀ frame, openAndDecode key.bytes raw = .ok frame ↔ ∃ uplink,
      (⟨key, .fromFlags, false⟩ : UplinkReader).read Sink.collect raw = .ok uplink ∧ uplink.frame = frame) ∧
    (∀ rssi snr, ∃ metrics : RadioMetrics,
      radio.read sink (raw ++ [rssi, snr]) =
        (plain.read sink raw).map (fun uplink => { uplink with radio := some metrics }) ∧
      metrics.rssi = -(rssi.toNat : Int) ∧ metrics.snr.isFinite = true ∧
      metrics.snr.toRat = (snr.toInt8.toInt : Rat) / 4) ∧
    (raw.length < 2 → radio.read sink raw = .error (.invalidLength raw.length)) ∧
    (∀ (reader : UplinkReader) (before : List Delivery),
      let result := reader.read (fun deliveries => sink (before ++ deliveries)) raw
      (∀ error, result = .error error → (reader.feed sink raw).run.run before = (.error error, before)) ∧
      (∀ uplink, result = .ok uplink → (reader.feed sink raw).run.run before =
        (.ok (uplink.opened, uplink.radio, uplink.frame.summary),
          before ++ uplink.frame.deliveries))) := by
  intro plain radio
  have opening := read_plain key framing sink raw
  refine ⟨?_, ?_, ?_, ?_, read_of_short sink, ?_⟩
  · intro error
    rw [opening, Envelope.reveal_bytes]
    cases Envelope.revealWith key raw <;> simp [Except.map]
  · intro opened revealed
    rw [Envelope.reveal_bytes] at revealed
    rw [opening, revealed]
    rfl
  · intro frame
    rw [openAndDecode_bytes]
    cases (⟨key, .fromFlags, false⟩ : UplinkReader).read Sink.collect raw <;>
      simp [Except.map, Except.mapError]
  · intro rssi snr
    obtain ⟨finite, value⟩ := RadioMetrics.snr_ofBytes rssi snr
    exact ⟨.ofBytes rssi snr, read_append key framing sink raw rssi snr, rfl, finite, value⟩
  · intro reader before result
    constructor
    · intro error refused
      rw [run_feed, show reader.read _ raw = .error error from refused]
    · intro uplink made
      rw [run_feed, show reader.read _ raw = .ok uplink from made]

end UplinkReader

end Telemetry
