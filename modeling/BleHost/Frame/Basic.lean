import BleHost.Identity

/-!
# Frames

A frame is one packet on the wire: a header of four bytes and a payload. Byte 0 of the header is
`0x80` for an event and `0x00` for all else, byte 1 is the length of the payload, bytes 2 and 3 are
the class and the command. No frame is longer than 64 bytes, and nothing marks where one begins.
-/

namespace BleHost

/-- A packet as it was delimited on the wire, with its payload not yet decoded. -/
structure Frame where
  id : Identity
  payload : List UInt8
deriving DecidableEq, Repr

namespace Frame

/-- The length of a header. -/
def headerLength : Nat := 4

/-- The length of the longest frame. -/
def maxLength : Nat := 64

/-- The length of the longest payload. -/
def maxPayload : Nat := maxLength - headerLength

/-- The first header byte of a packet. -/
def kindByte (isEvent : Bool) : UInt8 := if isEvent then 0x80 else 0x00

/-- Whether a byte can be the first of a header: only its top bit may be set. -/
def isKindByte (byte : UInt8) : Bool := byte &&& 0x7F == 0

/-- Whether a first header byte announces an event. -/
def announcesEvent (byte : UInt8) : Bool := byte &&& 0x80 != 0

/-- The bytes of a frame. The length byte holds the payload's length modulo 256. -/
def bytes (f : Frame) : List UInt8 :=
  kindByte f.id.isEvent :: UInt8.ofNat f.payload.length :: f.id.classId :: f.id.commandId
    :: f.payload

/-- The frame with the given bytes, its length byte taken on trust. -/
def ofBytes? : List UInt8 → Option Frame
  | kind :: _ :: classId :: commandId :: payload =>
    some ⟨⟨classId, commandId, announcesEvent kind⟩, payload⟩
  | _ => none

end Frame

end BleHost
