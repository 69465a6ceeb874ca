import BleHost.Address
import Mathlib.Data.Fintype.Basic
import Mathlib.Data.List.Basic

/-!
# How addresses are spelled

A digit of base sixteen is written with one of two characters, an octet is two digits, and an
address is spelled by six octets with a colon between each two of them, the last byte on the wire
first. What reads an address takes exactly these texts (`Address.parse_eq_ok_iff`), and what writes
one gives the spelling that is in upper case (`Address.spells_text`).
-/

namespace BleHost

namespace Text

/-- A digit as it is written. -/
structure HexDigit where
  value : Fin 16
  isUpper : Bool
deriving DecidableEq, Repr

/-- The character of a digit. -/
def HexDigit.char (d : HexDigit) : Char :=
  (if d.isUpper then
    #v['0', '1', '2', '3', '4', '5', '6', '7', '8', '9', 'A', 'B', 'C', 'D', 'E', 'F']
  else
    #v['0', '1', '2', '3', '4', '5', '6', '7', '8', '9', 'a', 'b', 'c', 'd', 'e', 'f'])[d.value]

/-- Two digits, which stand for a byte. -/
structure Octet where
  high : HexDigit
  low : HexDigit
deriving DecidableEq, Repr

namespace Octet

/-- The byte that an octet stands for. -/
def byte (o : Octet) : UInt8 := UInt8.ofNat (16 * o.high.value + o.low.value)

/-- The two characters of an octet. -/
def chars (o : Octet) : List Char := [o.high.char, o.low.char]

/-- The octet of a byte that is in upper case. -/
def ofByte (byte : UInt8) : Octet :=
  ⟨⟨⟨byte.toNat / 16, by have := byte.toNat_lt; omega⟩, true⟩,
    ⟨⟨byte.toNat % 16, by omega⟩, true⟩⟩

/-- Octets with a colon between each two of them. -/
def spell (octets : List Octet) : String :=
  ":".intercalate (octets.map fun o => String.ofList o.chars)

end Octet

/-! ### Digits -/

theorem hexValue?_char (d : HexDigit) : hexValue? d.char = some d.value.val := by
  obtain ⟨value, isUpper⟩ := d
  revert value isUpper
  decide

/-- Nothing but a digit has a value. -/
theorem exists_of_hexValue? {c : Char} {value : Nat} (h : hexValue? c = some value) :
    ∃ d : HexDigit, d.char = c ∧ d.value.val = value := by
  have hall : ∀ n < 103, ∀ v ∈ hexValue? (Char.ofNat n), ∃ (value : Fin 16) (isUpper : Bool),
      (⟨value, isUpper⟩ : HexDigit).char = Char.ofNat n ∧ value.val = v := by
    decide +kernel
  have hlt : c.toNat < 103 := by
    by_contra hge
    have hnot : ∀ last : Char, last.toNat < 103 → ¬ c ≤ last := by
      intro last hlast hle
      have hle : c.toNat ≤ last.toNat := hle
      omega
    simp [hexValue?, hnot '9' (by decide), hnot 'F' (by decide), hnot 'f' (by decide)] at h
  obtain ⟨v, isUpper, hchar, hvalue⟩ := hall c.toNat hlt value (by rwa [Char.ofNat_toNat])
  exact ⟨⟨v, isUpper⟩, by rwa [Char.ofNat_toNat] at hchar, hvalue⟩

theorem toUpper_char (d : HexDigit) : d.char.toUpper = (⟨d.value, true⟩ : HexDigit).char := by
  obtain ⟨value, isUpper⟩ := d
  revert value isUpper
  decide

theorem hexDigit_eq_char {value : Nat} (h : value < 16) :
    hexDigit value = (⟨⟨value, h⟩, true⟩ : HexDigit).char := by
  have hall : ∀ v : Fin 16, hexDigit v = (⟨v, true⟩ : HexDigit).char := by decide
  exact hall ⟨value, h⟩

/-! ### Octets -/

namespace Octet

variable {o : Octet} {octets : List Octet}

@[simp] theorem byte_ofByte (byte : UInt8) : (ofByte byte).byte = byte := by
  have hsum : 16 * (byte.toNat / 16) + byte.toNat % 16 = byte.toNat := by omega
  rw [Octet.byte, ofByte, hsum, UInt8.ofNat_toNat]

/-- An octet in upper case is that of its byte. -/
theorem ofByte_byte (o : Octet) : ofByte o.byte = ⟨⟨o.high.value, true⟩, ⟨o.low.value, true⟩⟩ := by
  obtain ⟨⟨high, _⟩, ⟨low, _⟩⟩ := o
  have hbyte : (UInt8.ofNat (16 * high.val + low.val)).toNat = 16 * high.val + low.val :=
    UInt8.toNat_ofNat_of_lt' (by have := high.isLt; have := low.isLt; show _ < 256; omega)
  have hhigh : (16 * high.val + low.val) / 16 = high.val := by omega
  have hlow : (16 * high.val + low.val) % 16 = low.val := by omega
  simp only [ofByte, byte, hbyte, hhigh, hlow]

theorem octet?_chars (o : Octet) : octet? o.high.char o.low.char = some o.byte := by
  rw [octet?, hexValue?_char, hexValue?_char]
  rfl

theorem exists_of_octet? {high low : Char} {byte : UInt8} (h : octet? high low = some byte) :
    ∃ o : Octet, o.chars = [high, low] ∧ o.byte = byte := by
  rw [octet?] at h
  split at h
  · rename_i u v hu hv
    obtain ⟨d, rfl, rfl⟩ := exists_of_hexValue? hu
    obtain ⟨e, rfl, rfl⟩ := exists_of_hexValue? hv
    exact ⟨⟨d, e⟩, rfl, Option.some.inj h⟩
  · cases h

theorem hexPair_eq_chars (byte : UInt8) : hexPair byte = (ofByte byte).chars := by
  have hlt := byte.toNat_lt
  rw [hexPair, hexDigit_eq_char (by omega : byte.toNat / 16 < 16),
    hexDigit_eq_char (by omega : byte.toNat % 16 < 16)]
  rfl

theorem map_toUpper_chars (o : Octet) : o.chars.map Char.toUpper = (ofByte o.byte).chars := by
  rw [ofByte_byte]
  simp [chars, toUpper_char]

/-- The characters of several octets. -/
theorem toList_spell (octets : List Octet) :
    (spell octets).toList = [':'].intercalate (octets.map chars) := by
  rw [spell, String.toList_intercalate, List.map_map]
  congr 1
  refine List.map_congr_left fun o _ => ?_
  exact String.toList_ofList

theorem intercalate_chars (o p : Octet) (octets : List Octet) :
    [':'].intercalate ((o :: p :: octets).map chars) =
      o.chars ++ ':' :: [':'].intercalate ((p :: octets).map chars) := by
  rw [List.map_cons, List.map_cons, List.intercalate_cons_cons, List.append_assoc]
  rfl

/-- Octets are put in upper case one by one. -/
theorem toUpper_spell (octets : List Octet) :
    (spell octets).toUpper = spell (octets.map fun o => ofByte o.byte) := by
  refine String.toList_injective ?_
  rw [String.toUpper, String.toList_map, toList_spell, toList_spell]
  induction octets with
  | nil => rfl
  | cons o octets ih =>
    cases octets with
    | nil => simpa using map_toUpper_chars o
    | cons p octets =>
      rw [intercalate_chars, List.map_append, List.map_cons, ih, map_toUpper_chars]
      exact (intercalate_chars _ _ _).symm

end Octet

end Text

namespace Address

open Text

variable {text : String} {a : Address} {octets : List Octet}

/-- An address is spelled by six octets, which stand for its bytes, the last byte on the wire
first. -/
def Spells (text : String) (a : Address) : Prop :=
  ∃ octets : List Octet, octets.length = 6 ∧ text = Octet.spell octets ∧
    a.wire = (octets.map Octet.byte).reverse

/-- Octets are read one by one. -/
theorem octets?_spell (o : Octet) (octets : List Octet) :
    octets? (Octet.spell (o :: octets)).toList = some ((o :: octets).map Octet.byte) := by
  rw [Octet.toList_spell]
  induction octets generalizing o with
  | nil => simp [Octet.chars, octets?, o.octet?_chars]
  | cons p octets ih =>
    have hchars : o.chars = [o.high.char, o.low.char] := rfl
    rw [Octet.intercalate_chars, hchars, List.cons_append, List.singleton_append, octets?,
      o.octet?_chars, ih p]
    rfl

/-- Nothing else is read as octets. -/
theorem exists_of_octets? {cs : List Char} {bytes : List UInt8} (h : octets? cs = some bytes) :
    ∃ o octets, cs = (Octet.spell (o :: octets)).toList ∧
      bytes = (o :: octets).map Octet.byte := by
  simp only [Octet.toList_spell]
  fun_induction octets? cs generalizing bytes with
  | case1 high low =>
    obtain ⟨byte, hbyte, rfl⟩ := Option.map_eq_some_iff.1 h
    obtain ⟨o, hchars, rfl⟩ := Octet.exists_of_octet? hbyte
    exact ⟨o, [], by simp [hchars], rfl⟩
  | case2 high low rest byte bytes' hrest hbyte ih =>
    obtain ⟨o, hchars, rfl⟩ := Octet.exists_of_octet? hbyte
    obtain ⟨p, octets, rfl, rfl⟩ := ih hrest
    refine ⟨o, p :: octets, ?_, (Option.some.inj h).symm⟩
    rw [Octet.intercalate_chars, hchars]
    rfl
  | case3 => cases h
  | case4 => cases h

/-! ### Addresses -/

theorem ofWire?_eq_some {bytes : List UInt8} : ofWire? bytes = some a ↔ a.wire = bytes := by
  rw [ofWire?]
  split
  · rename_i hlength
    rw [Option.some.injEq]
    constructor
    · rintro rfl
      rfl
    · rintro rfl
      rfl
  · rename_i hlength
    refine iff_of_false nofun ?_
    rintro rfl
    exact hlength a.length_wire

theorem parse_eq_ok_iff : parse text = .ok a ↔ Spells text a := by
  have hread : parse text = .ok a ↔
      ∃ bytes, octets? text.toList = some bytes ∧ ofWire? bytes.reverse = some a := by
    rw [← Option.bind_eq_some_iff, parse]
    split
    · rename_i address h
      rw [h, Except.ok.injEq, Option.some.injEq]
    · rename_i h
      rw [h]
      exact iff_of_false nofun nofun
  simp only [ofWire?_eq_some] at hread
  rw [hread]
  constructor
  · rintro ⟨bytes, hoctets, hwire⟩
    obtain ⟨o, octets, htext, rfl⟩ := exists_of_octets? hoctets
    refine ⟨o :: octets, ?_, String.toList_injective htext, hwire⟩
    have hlength := a.length_wire
    rwa [hwire, List.length_reverse, List.length_map] at hlength
  · rintro ⟨octets, hlength, rfl, hwire⟩
    cases octets with
    | nil => cases hlength
    | cons o octets => exact ⟨_, octets?_spell o octets, hwire⟩

/-- Every six octets spell an address. -/
theorem exists_spells (h : octets.length = 6) : ∃ a, Spells (Octet.spell octets) a :=
  ⟨⟨(octets.map Octet.byte).reverse, by rw [List.length_reverse, List.length_map, h]⟩,
    octets, h, rfl, rfl⟩

/-- An address is written as its bytes in upper case. -/
theorem text_eq_spell (a : Address) : a.text = Octet.spell (a.wire.reverse.map Octet.ofByte) := by
  rw [Address.text, Octet.spell, List.map_map]
  congr 1
  refine List.map_congr_left fun byte _ => ?_
  rw [hexByte, Octet.hexPair_eq_chars]
  rfl

/-- What is written spells the address. -/
theorem spells_text (a : Address) : Spells a.text a := by
  refine ⟨a.wire.reverse.map Octet.ofByte, ?_, a.text_eq_spell, ?_⟩
  · rw [List.length_map, List.length_reverse, a.length_wire]
  · simp [Function.comp_def]

/-- All spellings of an address differ only in their case from what is written. -/
theorem text_of_spells (h : Spells text a) : a.text = text.toUpper := by
  obtain ⟨octets, -, rfl, hwire⟩ := h
  rw [Octet.toUpper_spell, text_eq_spell, hwire, List.reverse_reverse, List.map_map]
  rfl

/-- What is not read is refused in one way. -/
theorem parse_cases (text : String) :
    (∃ a, parse text = .ok a) ∨
      parse text = .error (.invalidParameter s!"invalid device address: {text}") := by
  rw [parse]
  split
  · exact .inl ⟨_, rfl⟩
  · exact .inr rfl

/-- **An address is read from its spellings and from nothing else.** A text is read if and only if
it is six octets of two hexadecimal digits, of either case, with a colon between each two of them;
the bytes on the wire are then those of the octets, the last one first, and the address is written
as the text in upper case. Whatever an address is written as is read as that address. Every other
text is an invalid parameter, and taken for the zero address by the reader that refuses nothing and
agrees with the strict one otherwise. -/
theorem read_iff_spelled (text : String) :
    (∀ a, parse text = .ok a ↔ Spells text a) ∧
    ((∃ a, parse text = .ok a) ↔
      ∃ octets : List Octet, octets.length = 6 ∧ text = Octet.spell octets) ∧
    (∀ a, parse text = .ok a → a.text = text.toUpper ∧ parseLenient text = a) ∧
    (∀ a : Address, parse a.text = .ok a) ∧
    ((∀ a, parse text ≠ .ok a) →
      parse text = .error (.invalidParameter s!"invalid device address: {text}") ∧
        parseLenient text = zero) := by
  refine ⟨fun a => parse_eq_ok_iff, ⟨?_, ?_⟩, fun a h => ⟨?_, ?_⟩, fun a => ?_, fun h => ?_⟩
  · rintro ⟨a, ha⟩
    obtain ⟨octets, hlength, htext, -⟩ := parse_eq_ok_iff.1 ha
    exact ⟨octets, hlength, htext⟩
  · rintro ⟨octets, hlength, rfl⟩
    exact (exists_spells hlength).imp fun a => parse_eq_ok_iff.2
  · exact text_of_spells (parse_eq_ok_iff.1 h)
  · rw [parseLenient, h]
  · exact parse_eq_ok_iff.2 a.spells_text
  · have herror := (parse_cases text).resolve_left fun ⟨a, ha⟩ => h a ha
    exact ⟨herror, by rw [parseLenient, herror]⟩

/-- The octets of an address in both cases. -/
def mixedCase : List Octet :=
  [⟨⟨0, false⟩, ⟨10, false⟩⟩, ⟨⟨11, false⟩, ⟨1, true⟩⟩, ⟨⟨2, true⟩, ⟨12, true⟩⟩,
    ⟨⟨13, true⟩, ⟨3, false⟩⟩, ⟨⟨14, false⟩, ⟨4, true⟩⟩, ⟨⟨5, true⟩, ⟨15, true⟩⟩]

/-- An address in both cases is read, and one with a sign in place of a digit is not. -/
theorem read_iff_spelled_mixedCase :
    parse "0a:b1:2C:D3:e4:5F" = .ok ⟨[0x5F, 0xE4, 0xD3, 0x2C, 0xB1, 0x0A], rfl⟩ ∧
    Address.text ⟨[0x5F, 0xE4, 0xD3, 0x2C, 0xB1, 0x0A], rfl⟩ = "0A:B1:2C:D3:E4:5F" ∧
    (∀ a, parse "+F:EE:DD:CC:BB:AA" ≠ .ok a) ∧ parseLenient "+F:EE:DD:CC:BB:AA" = zero := by
  have hread := (read_iff_spelled "0a:b1:2C:D3:e4:5F").1 ⟨[0x5F, 0xE4, 0xD3, 0x2C, 0xB1, 0x0A], rfl⟩
    |>.2 ⟨mixedCase, rfl, by decide +kernel, by decide⟩
  have hnot : ∀ a, parse "+F:EE:DD:CC:BB:AA" ≠ .ok a := by
    intro a h
    have hnone : octets? "+F:EE:DD:CC:BB:AA".toList = none := by decide +kernel
    rw [parse, hnone] at h
    cases h
  refine ⟨hread, ?_, hnot, ((read_iff_spelled _).2.2.2.2 hnot).2⟩
  rw [((read_iff_spelled _).2.2.1 _ hread).1]
  decide +kernel

end Address

end BleHost
