import Telemetry.Frame.Field
import Telemetry.Frame.Header

/-!
# Frames under construction

A draft is a frame that fields are added to, in the order in which they will travel. A field that is
refused leaves the draft as it was.
-/

namespace Telemetry

/-- A field to be written. -/
structure FieldWrite where
  key : UInt8
  /-- Written only into frames whose fields carry positions. -/
  position : UInt8
  value : Value
deriving DecidableEq, Repr

/-- A frame under construction. -/
structure Draft where
  header : FrameHeader
  /-- The header and all fields so far. -/
  stream : BitStream

namespace Draft

/-- A frame with nothing but its header. -/
def opening (header : FrameHeader) : Draft where
  header := header
  stream := header.write .empty

/-- The position to write in this frame. -/
def position? (draft : Draft) (position : UInt8) : Option UInt8 :=
  if draft.header.flags.isPositional then some position else none

/-- Add a field. -/
def push (draft : Draft) (field : FieldWrite) : Except FieldError Draft :=
  (Field.write draft.stream field.value field.key (draft.position? field.position)).map
    fun stream => { draft with stream := stream }

/-- Add the marker that ends the fields. -/
def pushEnd (draft : Draft) : Draft :=
  let positioned :=
    if draft.header.flags.isPositional then draft.stream.writeUInt 0 Field.positionBits else draft.stream
  { draft with stream := positioned.writeUInt Registry.endKey.toNat Field.keyBits }

/-- The bytes of the frame so far. -/
def bytes (draft : Draft) : List UInt8 :=
  draft.stream.bytes

/-- Add fields in order, up to the first that is refused. -/
def pushAll (draft : Draft) : List FieldWrite → Except FieldError Draft
  | [] => .ok draft
  | field :: rest =>
    match draft.push field with
    | .ok draft => draft.pushAll rest
    | .error error => .error error

end Draft

/-- The bytes of a frame with the given header and fields. -/
def encodeFrame (header : FrameHeader) (fields : List FieldWrite) : Except FieldError (List UInt8) :=
  ((Draft.opening header).pushAll fields).map Draft.bytes

end Telemetry
