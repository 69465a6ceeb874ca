import BleHost.Address
import BleHost.Code.Advertiser
import BleHost.Code.Result
import BleHost.Code.StatusFlags
import BleHost.Wire.LittleEndian

/-!
# Field types

The types of the fields that payloads are made of, and how a value of each is written. Fields lie
back to back, with neither padding nor tags between them: numbers are little-endian, an address is
its six bytes, and a byte array is preceded by its length in one byte.
-/

namespace BleHost

/-- The type of a field. -/
inductive WireType
  | u8 | i8 | u16 | u32 | bool
  /-- Bytes preceded by their number. -/
  | bytes
  | address | result | addressType | scanType | statusFlags
deriving DecidableEq, Repr

namespace WireType

/-- The values of a field type. -/
abbrev Carrier : WireType → Type
  | u8 => UInt8
  | i8 => Int8
  | u16 => UInt16
  | u32 => UInt32
  | bool => Bool
  | bytes => List UInt8
  | address => Address
  | result => ResultCode
  | addressType => AddressType
  | scanType => ScanType
  | statusFlags => StatusFlags

instance : (t : WireType) → DecidableEq t.Carrier
  | u8 | i8 | u16 | u32 | bool | bytes | address | result | addressType | scanType
  | statusFlags => inferInstance

/-- The bytes of a value. Only a byte array can fail, when its length does not fit one byte. -/
def encode : (t : WireType) → t.Carrier → Except Error (List UInt8)
  | u8, v => .ok [v]
  | i8, v => .ok [v.toUInt8]
  | u16, v => .ok (Wire.littleEndian 2 v.toNat)
  | u32, v => .ok (Wire.littleEndian 4 v.toNat)
  | bool, v => .ok [if v then 1 else 0]
  | bytes, v =>
    if v.length ≤ 255 then .ok (UInt8.ofNat v.length :: v)
    else .error (.invalidParameter s!"array of {v.length} bytes exceeds 255")
  | address, v => .ok v.wire
  | result, v => .ok (Wire.littleEndian 2 v.raw.toNat)
  | addressType, v => .ok [v.raw]
  | scanType, v => .ok [v.raw]
  | statusFlags, v => .ok [v.bits]

end WireType

/-- A value together with its field type. -/
abbrev WireValue := (t : WireType) × t.Carrier

end BleHost
