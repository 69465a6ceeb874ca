import BleHost.Frame.Basic
import BleHost.Message.Basic

/-!
# Decoder catalogues

A catalogue says how the payloads of which packets are decoded. The standard one knows the packets
of `MessageKind`, each under its own identity; others may hold any decoders, also ones that refuse
a payload for a reason of their own.
-/

namespace BleHost

/-- A way to decode payloads. -/
abbrev Decoder := List UInt8 → Except Error Message

/-- Decoders by the identity of the packets they decode, at most one for each. -/
structure Catalogue where
  entries : List (Identity × Decoder) := []

namespace Catalogue

instance : Inhabited Catalogue := ⟨{}⟩

/-- The decoder of an identity. -/
def find? (c : Catalogue) (id : Identity) : Option Decoder :=
  (c.entries.find? (·.1 == id)).map (·.2)

/-- Whether an identity has a decoder. -/
def contains (c : Catalogue) (id : Identity) : Bool := (c.find? id).isSome

/-- The number of identities with a decoder. -/
def size (c : Catalogue) : Nat := c.entries.length

/-- Give an identity a decoder, in place of the one it had. -/
def register (c : Catalogue) (id : Identity) (decoder : Decoder) : Catalogue :=
  if c.contains id then
    ⟨c.entries.map fun entry => if entry.1 = id then (id, decoder) else entry⟩
  else ⟨c.entries ++ [(id, decoder)]⟩

/-- The catalogue of all known kinds of packets. -/
def standard : Catalogue :=
  ⟨MessageKind.all.map fun kind => (kind.id, Message.decode kind)⟩

/-- Decode a frame by the decoder of its identity. -/
def decode (c : Catalogue) (frame : Frame) : Except Error Message :=
  match c.find? frame.id with
  | some decoder => decoder frame.payload
  | none => .error (.unknownPacket frame.id)

/-- The identities that have a decoder, in order, spelled out. -/
def describe (c : Catalogue) : String :=
  let ids := ((c.entries.map (·.1)).mergeSort Identity.le).map Identity.describe
  "PacketRegistry \x7b packets: [" ++ ", ".intercalate ids ++ "] \x7d"

end Catalogue

end BleHost
