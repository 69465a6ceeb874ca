import BleHost.Wire.Type

/-!
# Reading a payload

A cursor walks over a payload and never past its end: a read that asks for more bytes than are left
fails and says how many it needed and how many there were. A failed read leaves the cursor where it
was, except that a byte array whose bytes are missing has taken up its length byte.
-/

namespace BleHost

/-- A place in a payload: how many bytes lie before it and which lie after it. -/
structure Cursor where
  position : Nat
  rest : List UInt8
deriving DecidableEq, Repr

namespace Cursor

/-- The start of a payload. -/
def start (payload : List UInt8) : Cursor := ⟨0, payload⟩

/-- The number of bytes not yet read. -/
def remaining (c : Cursor) : Nat := c.rest.length

/-- Read exactly `n` bytes. -/
def take (n : Nat) (c : Cursor) :
    Except Error { bytes : List UInt8 // bytes.length = n } × Cursor :=
  if h : n ≤ c.rest.length then
    (.ok ⟨c.rest.take n, by simp [h]⟩, ⟨c.position + n, c.rest.drop n⟩)
  else (.error (.truncated n c.remaining), c)

/-- Read `n` bytes and see a value in them. -/
def view {α : Type} (n : Nat) (see : { bytes : List UInt8 // bytes.length = n } → α)
    (c : Cursor) : Except Error α × Cursor :=
  ((c.take n).1.map see, (c.take n).2)

/-- The number that some bytes spell. -/
def number {n : Nat} (bytes : { bytes : List UInt8 // bytes.length = n }) : Nat :=
  Wire.ofLittleEndian bytes.1

/-- Read a length byte and as many bytes as it says. -/
def array (c : Cursor) : Except Error (List UInt8) × Cursor :=
  match c.view 1 number with
  | (.ok length, c) => c.view length (·.1)
  | (.error e, c) => (.error e, c)

/-- Read a value of a field type. -/
def read : (t : WireType) → Cursor → Except Error t.Carrier × Cursor
  | .u8, c => c.view 1 fun b => UInt8.ofNat (number b)
  | .i8, c => c.view 1 fun b => (UInt8.ofNat (number b)).toInt8
  | .u16, c => c.view 2 fun b => UInt16.ofNat (number b)
  | .u32, c => c.view 4 fun b => UInt32.ofNat (number b)
  | .bool, c => c.view 1 fun b => decide (number b ≠ 0)
  | .bytes, c => c.array
  | .address, c => c.view 6 fun b => ⟨b.1, b.2⟩
  | .result, c => c.view 2 fun b => Code.ofRaw (UInt16.ofNat (number b))
  | .addressType, c => c.view 1 fun b => Code.ofRaw (UInt8.ofNat (number b))
  | .scanType, c => c.view 1 fun b => Code.ofRaw (UInt8.ofNat (number b))
  | .statusFlags, c => c.view 1 fun b => ⟨UInt8.ofNat (number b)⟩

end Cursor

end BleHost
