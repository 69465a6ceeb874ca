import BleHost.Error

/-!
# Device addresses

A device address is six bytes. The wire carries them least significant first; people write them
most significant first, as six octets of two hexadecimal digits with colons between them.
-/

namespace BleHost

/-- A device address, in wire order. -/
structure Address where
  wire : List UInt8
  length_wire : wire.length = 6
deriving DecidableEq, Repr

namespace Address

/-- The address of six zero bytes, which names no device. -/
def zero : Address := ⟨List.replicate 6 0, rfl⟩

instance : Inhabited Address := ⟨zero⟩

/-- Whether this is the zero address. -/
def isZero (a : Address) : Bool := a.wire.all (· == 0)

/-- The address with the given wire bytes, if there are six of them. -/
def ofWire? (bytes : List UInt8) : Option Address :=
  if h : bytes.length = 6 then some ⟨bytes, h⟩ else none

/-- Addresses are ordered by their wire bytes, the first byte deciding first. -/
def le (a b : Address) : Bool := !(b.wire < a.wire)

/-- Two-digit octets with a single colon between each two of them. -/
def octets? : List Char → Option (List UInt8)
  | [high, low] => (Text.octet? high low).map ([·])
  | high :: low :: ':' :: rest =>
    match Text.octet? high low, octets? rest with
    | some byte, some bytes => some (byte :: bytes)
    | _, _ => none
  | _ => none

/-- Read an address: six octets, of either case, and nothing else. -/
def parse (text : String) : Except Error Address :=
  match (octets? text.toList).bind fun octets => ofWire? octets.reverse with
  | some address => .ok address
  | none => .error (.invalidParameter s!"invalid device address: {text}")

/-- Read an address, taking the zero address for any text that is none. -/
def parseLenient (text : String) : Address :=
  match parse text with
  | .ok address => address
  | .error _ => zero

/-- The address as people write it, in upper case. -/
def text (a : Address) : String := ":".intercalate (a.wire.reverse.map Text.hexByte)

end Address

end BleHost
