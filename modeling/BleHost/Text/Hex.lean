/-!
# Hexadecimal text

Digits of base sixteen, written in upper case and read in either case, and the fixed-width forms
in which bytes and sixteen-bit words are shown.
-/

namespace BleHost.Text

/-- The upper-case digit of a value below sixteen. -/
def hexDigit (value : Nat) : Char :=
  if value < 10 then Char.ofNat ('0'.toNat + value) else Char.ofNat ('A'.toNat + (value - 10))

/-- The value of a digit of either case; no other character has one. -/
def hexValue? (c : Char) : Option Nat :=
  if '0' ≤ c ∧ c ≤ '9' then some (c.toNat - '0'.toNat)
  else if 'A' ≤ c ∧ c ≤ 'F' then some (c.toNat - 'A'.toNat + 10)
  else if 'a' ≤ c ∧ c ≤ 'f' then some (c.toNat - 'a'.toNat + 10)
  else none

/-- The two digits of a byte, high half first. -/
def hexPair (byte : UInt8) : List Char :=
  [hexDigit (byte.toNat / 16), hexDigit (byte.toNat % 16)]

/-- The byte that two digits spell. -/
def octet? (high low : Char) : Option UInt8 :=
  match hexValue? high, hexValue? low with
  | some h, some l => some (UInt8.ofNat (16 * h + l))
  | _, _ => none

/-- A byte as two digits. -/
def hexByte (byte : UInt8) : String := String.ofList (hexPair byte)

/-- A sixteen-bit word as four digits, most significant first. -/
def hexWord (word : UInt16) : String :=
  String.ofList (hexPair (UInt8.ofNat (word.toNat / 256)) ++ hexPair (UInt8.ofNat word.toNat))

/-- A byte string as a bracketed list of two-digit bytes. -/
def hexList (bytes : List UInt8) : String :=
  "[" ++ ", ".intercalate (bytes.map hexByte) ++ "]"

end BleHost.Text
