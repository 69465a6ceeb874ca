/-!
# Lenient UTF-8

Names heard over the air are byte strings that should be UTF-8 and may be anything. `decodeLossy`
reads every byte string: a well-formed sequence gives its character, and each maximal prefix of an
ill-formed one gives a single replacement character.
-/

namespace BleHost.Text

/-- The character shown in place of bytes that are not UTF-8. -/
def replacement : Char := '\uFFFD'

/-- The number of bytes a first byte announces and the range its second byte must lie in;
`none` for bytes that start no character. -/
def leadByte? (lead : UInt8) : Option (Nat × UInt8 × UInt8) :=
  if 0xC2 ≤ lead ∧ lead ≤ 0xDF then some (2, 0x80, 0xBF)
  else if lead = 0xE0 then some (3, 0xA0, 0xBF)
  else if lead = 0xED then some (3, 0x80, 0x9F)
  else if 0xE1 ≤ lead ∧ lead ≤ 0xEF then some (3, 0x80, 0xBF)
  else if lead = 0xF0 then some (4, 0x90, 0xBF)
  else if 0xF1 ≤ lead ∧ lead ≤ 0xF3 then some (4, 0x80, 0xBF)
  else if lead = 0xF4 then some (4, 0x80, 0x8F)
  else none

/-- Whether a byte continues a character. -/
def isContinuation (byte : UInt8) : Bool := 0x80 ≤ byte && byte ≤ 0xBF

/-- The leading bytes of `rest` that a character of `length` bytes may go on with, the first of
them between `low` and `high`. -/
def continuation (length : Nat) (low high : UInt8) (rest : List UInt8) : List UInt8 :=
  match rest with
  | [] => []
  | second :: more =>
    if low ≤ second ∧ second ≤ high then second :: (more.take (length - 2)).takeWhile isContinuation
    else []

/-- The code point spelled by a first byte of a character of `length` bytes and those after it. -/
def codePoint (length : Nat) (lead : UInt8) (tail : List UInt8) : Nat :=
  tail.foldl (fun acc byte => acc * 64 + byte.toNat % 64) (lead.toNat % (1 <<< (7 - length)))

/-- The first character of a byte string, and the number of bytes after the first one that it
takes up. -/
def firstChar (lead : UInt8) (rest : List UInt8) : Char × Nat :=
  if lead < 0x80 then (Char.ofNat lead.toNat, 0)
  else match leadByte? lead with
    | none => (replacement, 0)
    | some (length, low, high) =>
      let tail := continuation length low high rest
      if tail.length + 1 = length then (Char.ofNat (codePoint length lead tail), tail.length)
      else (replacement, tail.length)

/-- Read a byte string as UTF-8, with one replacement character for each maximal ill-formed
prefix. -/
def decodeLossyChars : List UInt8 → List Char
  | [] => []
  | lead :: rest =>
    (firstChar lead rest).1 :: decodeLossyChars (rest.drop (firstChar lead rest).2)
termination_by bytes => bytes.length
decreasing_by simp only [List.length_drop, List.length_cons]; omega

/-- The text of a byte string read leniently. -/
def decodeLossy (bytes : List UInt8) : String := String.ofList (decodeLossyChars bytes)

end BleHost.Text
