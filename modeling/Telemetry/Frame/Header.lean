import Telemetry.Bits.Stream

/-!
# Frame headers

A frame opens with a byte of flags, after which a message identifier may follow. Whether one is
expected can be read off the flags or is known from where the frame came from (`Framing`).
-/

namespace Telemetry

structure FrameFlags where
  byte : UInt8
deriving DecidableEq, Repr

namespace FrameFlags

/-- Every field is preceded by a position. -/
def positional : FrameFlags := ⟨0x01⟩

/-- The frame asks a device for something and carries a message identifier. -/
def request : FrameFlags := ⟨0x02⟩

/-- The frame answers a request and carries its message identifier. -/
def response : FrameFlags := ⟨0x04⟩

/-- The bits without a meaning. -/
def reserved : FrameFlags := ⟨0xF8⟩

/-- A flag of both is set. -/
def meets (a b : FrameFlags) : Bool :=
  a.byte &&& b.byte ≠ 0

/-- The flags of both. -/
def join (a b : FrameFlags) : FrameFlags :=
  ⟨a.byte ||| b.byte⟩

def isPositional (flags : FrameFlags) : Bool :=
  flags.meets positional

/-- The flags announce a message identifier. -/
def hasMessageId (flags : FrameFlags) : Bool :=
  flags.meets (request.join response)

def hasReserved (flags : FrameFlags) : Bool :=
  flags.meets reserved

end FrameFlags

/-- When a message identifier is expected after the flags. -/
inductive Framing where
  /-- When the flags announce one. -/
  | fromFlags
  /-- Never. -/
  | uplink
  /-- Always. -/
  | response
deriving DecidableEq, Repr

/-- A message identifier is expected after these flags. -/
def Framing.expectsMessageId (framing : Framing) (flags : FrameFlags) : Bool :=
  match framing with
  | .fromFlags => flags.hasMessageId
  | .uplink => false
  | .response => true

/-- What stands in front of the fields of a frame. -/
structure FrameHeader where
  flags : FrameFlags
  messageId : Option UInt8
deriving DecidableEq, Repr

namespace FrameHeader

/-- No flags and no message identifier. -/
def uplink : FrameHeader := ⟨⟨0⟩, none⟩

/-- Fields with positions, and no message identifier. -/
def positional : FrameHeader := ⟨.positional, none⟩

def request (id : UInt8) : FrameHeader := ⟨.request, some id⟩

def response (id : UInt8) : FrameHeader := ⟨.response, some id⟩

/-- The same header for fields with positions. -/
def withPositional (header : FrameHeader) : FrameHeader :=
  { header with flags := header.flags.join .positional }

def flagsBits : Nat := 8

def messageIdBits : Nat := 8

def write (header : FrameHeader) (s : BitStream) : BitStream :=
  let flagged := s.writeUInt header.flags.byte.toNat flagsBits
  match header.messageId with
  | some id => flagged.writeUInt id.toNat messageIdBits
  | none => flagged

def read (framing : Framing) (s : BitStream) : FrameHeader × BitStream :=
  let (byte, s) := s.readUInt flagsBits
  let flags : FrameFlags := ⟨UInt8.ofNat byte⟩
  if framing.expectsMessageId flags then
    let (id, s) := s.readUInt messageIdBits
    (⟨flags, some (UInt8.ofNat id)⟩, s)
  else (⟨flags, none⟩, s)

end FrameHeader

end Telemetry
