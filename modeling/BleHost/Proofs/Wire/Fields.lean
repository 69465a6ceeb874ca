import BleHost.Wire.Cursor
import BleHost.Wire.LittleEndianLaws
import BleHost.Wire.Writer

/-!
# Reading and writing one field

A field that has been written is read back, whatever follows it (`Cursor.read_bytes`); whatever is
read was written just so (`Cursor.of_read`), except for truth values, which any byte but zero
spells; and nothing else than missing bytes keeps a field from being read
(`Cursor.truncated_of_read`).

All types but byte arrays have a fixed width, and what is to be known of one of them is collected in
`FixedWidth`.
-/

namespace BleHost

namespace Code

variable {κ ρ : Type} [Vocabulary κ ρ] [DecidableEq ρ]

/-- A code is canonical if it is the one that its number is read as: no number that has a name is
spelled as one without. -/
def IsCanonical (c : Code κ ρ) : Prop := ofRaw c.raw = c

instance [DecidableEq κ] : DecidablePred (IsCanonical : Code κ ρ → Prop) :=
  fun c => inferInstanceAs (Decidable (ofRaw c.raw = c))

/-- Reading a number loses nothing. -/
@[simp] theorem raw_ofRaw (r : ρ) : (ofRaw r : Code κ ρ).raw = r := by
  unfold ofRaw
  split
  · rename_i k hk
    simpa [raw] using List.find?_some hk
  · rfl

theorem isCanonical_ofRaw (r : ρ) : (ofRaw r : Code κ ρ).IsCanonical := by
  rw [IsCanonical, raw_ofRaw]

end Code

/-- Whether the values of a type are all canonical: it is not one of the types of codes. -/
def WireType.isPlain : WireType → Bool
  | .result | .addressType | .scanType => false
  | _ => true

namespace WireValue

/-- Whether a value can be written: the length of a byte array has to fit one byte. -/
def Fits : WireValue → Prop
  | ⟨.bytes, v⟩ => v.length ≤ 255
  | _ => True

instance : DecidablePred Fits
  | ⟨.bytes, v⟩ => inferInstanceAs (Decidable (v.length ≤ 255))
  | ⟨.u8, _⟩ | ⟨.i8, _⟩ | ⟨.u16, _⟩ | ⟨.u32, _⟩ | ⟨.bool, _⟩ | ⟨.address, _⟩ | ⟨.result, _⟩
  | ⟨.addressType, _⟩ | ⟨.scanType, _⟩ | ⟨.statusFlags, _⟩ => inferInstanceAs (Decidable True)

theorem not_fits_iff {v : WireValue} :
    ¬ v.Fits ↔ ∃ data, v = ⟨.bytes, data⟩ ∧ 255 < data.length := by
  constructor
  · intro h
    obtain ⟨t, x⟩ := v
    cases t
    case bytes => exact ⟨x, rfl, Nat.lt_of_not_le h⟩
    all_goals exact absurd trivial h
  · rintro ⟨data, rfl, h⟩
    exact Nat.not_le.2 h

/-- Whether a value is what its bytes are read as. Only codes may fail to be. -/
def IsCanonical : WireValue → Prop
  | ⟨.result, c⟩ => Code.IsCanonical c
  | ⟨.addressType, c⟩ => Code.IsCanonical c
  | ⟨.scanType, c⟩ => Code.IsCanonical c
  | _ => True

instance : DecidablePred IsCanonical
  | ⟨.result, c⟩ => inferInstanceAs (Decidable (Code.IsCanonical c))
  | ⟨.addressType, c⟩ => inferInstanceAs (Decidable (Code.IsCanonical c))
  | ⟨.scanType, c⟩ => inferInstanceAs (Decidable (Code.IsCanonical c))
  | ⟨.u8, _⟩ | ⟨.i8, _⟩ | ⟨.u16, _⟩ | ⟨.u32, _⟩ | ⟨.bool, _⟩ | ⟨.bytes, _⟩ | ⟨.address, _⟩
  | ⟨.statusFlags, _⟩ => inferInstanceAs (Decidable True)

theorem isCanonical_of_isPlain {v : WireValue} (h : v.1.isPlain = true) : v.IsCanonical := by
  obtain ⟨t, x⟩ := v
  cases t <;> first | exact trivial | cases h

/-- The bytes that a value is written as, if it can be written. -/
def bytes (v : WireValue) : List UInt8 := (v.1.encode v.2).toOption.getD []

/-- A byte array stands behind its length. -/
theorem bytes_array {data : List UInt8} (h : data.length ≤ 255) :
    bytes ⟨.bytes, data⟩ = UInt8.ofNat data.length :: data := by
  rw [bytes, WireType.encode, if_pos h]
  rfl

theorem encode_eq_ok {v : WireValue} (h : v.Fits) : v.1.encode v.2 = .ok v.bytes := by
  obtain ⟨t, x⟩ := v
  cases t
  case bytes => simp only [bytes, WireType.encode, if_pos (show x.length ≤ 255 from h)]; rfl
  all_goals rfl

theorem encode_eq_error {v : WireValue} (h : ¬ v.Fits) :
    ∃ reason, v.1.encode v.2 = .error (.invalidParameter reason) := by
  obtain ⟨t, x⟩ := v
  cases t
  case bytes =>
    simp only [WireType.encode, if_neg (show ¬ x.length ≤ 255 from h)]
    exact ⟨_, rfl⟩
  all_goals exact absurd trivial h

end WireValue

namespace Cursor

variable {α : Type} {c : Cursor} {n : Nat} {s : List UInt8}

/-! ### Several bytes -/

/-- Bytes that are there are read. -/
theorem view_append (see : { bytes : List UInt8 // bytes.length = n } → α)
    (bytes : { bytes : List UInt8 // bytes.length = n }) (h : c.rest = bytes.1 ++ s) :
    c.view n see = (.ok (see bytes), ⟨c.position + n, s⟩) := by
  obtain ⟨bytes, rfl⟩ := bytes
  have htake : c.take bytes.length = (.ok ⟨bytes, rfl⟩, ⟨c.position + bytes.length, s⟩) := by
    simp [take, h]
  rw [view, htake]
  rfl

/-- Bytes that are not all there are missed. -/
theorem view_short (see : { bytes : List UInt8 // bytes.length = n } → α)
    (h : c.rest.length < n) : c.view n see = (.error (.truncated n c.rest.length), c) := by
  rw [view, take, dif_neg (Nat.not_le.2 h)]
  rfl

/-- What has been read was there. -/
theorem of_view {see : { bytes : List UInt8 // bytes.length = n } → α} {a : α} {c' : Cursor}
    (h : c.view n see = (.ok a, c')) :
    ∃ bytes, see bytes = a ∧ c.rest = bytes.1 ++ c'.rest := by
  by_cases hle : n ≤ c.rest.length
  · have hsplit : c.rest = (⟨c.rest.take n, by simp [hle]⟩ :
        { bytes : List UInt8 // bytes.length = n }).1 ++ c.rest.drop n :=
      (List.take_append_drop n c.rest).symm
    rw [view_append see _ hsplit] at h
    obtain ⟨hsee, rfl⟩ := Prod.mk.inj h
    exact ⟨_, Except.ok.inj hsee, hsplit⟩
  · rw [view_short see (Nat.not_le.1 hle)] at h
    cases (Prod.mk.inj h).1

/-- What could not be read was not all there. -/
theorem truncated_of_view {see : { bytes : List UInt8 // bytes.length = n } → α} {e : Error}
    (h : (c.view n see).1 = .error e) : e = .truncated n c.rest.length ∧ c.rest.length < n := by
  by_cases hlt : c.rest.length < n
  · rw [view_short see hlt] at h
    exact ⟨(Except.error.inj h).symm, hlt⟩
  · rw [view_append see ⟨c.rest.take n, by simp; omega⟩ (List.take_append_drop n c.rest).symm] at h
    cases h

/-! ### Byte arrays -/

theorem array_nil (h : c.rest = []) : c.array = (.error (.truncated 1 0), c) := by
  have hlt : c.rest.length < 1 := by simp [h]
  rw [array, view_short number hlt, h]
  rfl

/-- The first byte is the number of those that belong to the array. -/
theorem array_cons {byte : UInt8} {body : List UInt8} (h : c.rest = byte :: body) :
    c.array = Cursor.view byte.toNat (·.1) ⟨c.position + 1, body⟩ := by
  have hnumber : c.view 1 number = (.ok byte.toNat, ⟨c.position + 1, body⟩) := by
    have hview := view_append (n := 1) number ⟨[byte], rfl⟩ h
    simpa [number, Wire.ofLittleEndian] using hview
  rw [array, hnumber]

end Cursor

/-! ### Types of fixed width -/

/-- What is to be known of a type whose values all have the same width: which value is seen in so
many bytes, and which bytes a value is written as. -/
structure FixedWidth (t : WireType) where
  width : Nat
  see : { bytes : List UInt8 // bytes.length = width } → t.Carrier
  write : t.Carrier → { bytes : List UInt8 // bytes.length = width }
  read_eq : ∀ c : Cursor, c.read t = c.view width see
  bytes_eq : ∀ v : t.Carrier, WireValue.bytes ⟨t, v⟩ = (write v).1
  see_write : ∀ v : t.Carrier, WireValue.IsCanonical ⟨t, v⟩ → see (write v) = v
  isCanonical_see : ∀ b, WireValue.IsCanonical ⟨t, see b⟩
  write_see : t ≠ .bool → ∀ b, write (see b) = b

namespace FixedWidth

/-- A type whose values stand for numbers. -/
def ofNumber {t : WireType} (width : Nat) (of : Nat → t.Carrier) (num : t.Carrier → Nat)
    (read_eq : ∀ c : Cursor, c.read t = c.view width fun b => of (Cursor.number b))
    (bytes_eq : ∀ v : t.Carrier, WireValue.bytes ⟨t, v⟩ = Wire.littleEndian width (num v))
    (num_lt : ∀ v, num v < 256 ^ width)
    (of_num : ∀ v : t.Carrier, WireValue.IsCanonical ⟨t, v⟩ → of (num v) = v)
    (isCanonical_of : ∀ n, WireValue.IsCanonical ⟨t, of n⟩)
    (num_of : t ≠ .bool → ∀ n < 256 ^ width, num (of n) = n) : FixedWidth t where
  width
  see b := of (Cursor.number b)
  write v := ⟨Wire.littleEndian width (num v), Wire.length_littleEndian width (num v)⟩
  read_eq
  bytes_eq
  see_write v hv := by rw [Cursor.number, Wire.ofLittleEndian_littleEndian (num_lt v), of_num v hv]
  isCanonical_see b := isCanonical_of _
  write_see ht := by
    rintro ⟨b, rfl⟩
    apply Subtype.ext
    dsimp only [Cursor.number]
    rw [num_of ht _ (Wire.ofLittleEndian_lt b), Wire.littleEndian_ofLittleEndian]

/-- A byte is its own little-endian form. -/
theorem littleEndian_toNat (b : UInt8) : Wire.littleEndian 1 b.toNat = [b] := by
  simp [Wire.littleEndian]

/-- Every type but that of byte arrays has a fixed width. -/
def of : (t : WireType) → t ≠ .bytes → FixedWidth t
  | .u8, _ => ofNumber 1 UInt8.ofNat UInt8.toNat (fun _ => rfl)
      (fun v => (littleEndian_toNat v).symm) (fun v => v.toNat_lt) (fun v _ => UInt8.ofNat_toNat)
      (fun _ => trivial) (fun _ n h => UInt8.toNat_ofNat_of_lt' h)
  | .i8, _ => ofNumber 1 (fun n => (UInt8.ofNat n).toInt8) (fun v => v.toUInt8.toNat)
      (fun _ => rfl) (fun v => (littleEndian_toNat v.toUInt8).symm) (fun v => v.toUInt8.toNat_lt)
      (fun v _ => by simp) (fun _ => trivial)
      (fun _ n h => by simpa using UInt8.toNat_ofNat_of_lt' h)
  | .u16, _ => ofNumber 2 UInt16.ofNat UInt16.toNat (fun _ => rfl) (fun _ => rfl)
      (fun v => v.toNat_lt) (fun v _ => UInt16.ofNat_toNat) (fun _ => trivial)
      (fun _ n h => UInt16.toNat_ofNat_of_lt' h)
  | .u32, _ => ofNumber 4 UInt32.ofNat UInt32.toNat (fun _ => rfl) (fun _ => rfl)
      (fun v => v.toNat_lt) (fun v _ => UInt32.ofNat_toNat) (fun _ => trivial)
      (fun _ n h => UInt32.toNat_ofNat_of_lt' h)
  | .bool, _ => ofNumber 1 (fun n => decide (n ≠ 0)) (fun v => if v then 1 else 0)
      (fun _ => rfl) (fun v => by cases v <;> rfl) (fun v => by cases v <;> decide)
      (fun v _ => by cases v <;> rfl) (fun _ => trivial) (fun h => absurd rfl h)
  | .address, _ =>
    { width := 6
      see := fun ⟨bytes, hlength⟩ => ⟨bytes, hlength⟩
      write := fun v => ⟨v.wire, v.length_wire⟩
      read_eq := fun _ => rfl
      bytes_eq := fun _ => rfl
      see_write := fun _ _ => rfl
      isCanonical_see := fun _ => trivial
      write_see := fun _ _ => rfl }
  | .result, _ => ofNumber 2 (fun n => Code.ofRaw (UInt16.ofNat n)) (fun v => v.raw.toNat)
      (fun _ => rfl) (fun _ => rfl) (fun v => v.raw.toNat_lt)
      (fun v hv => by rw [UInt16.ofNat_toNat]; exact hv) (fun _ => Code.isCanonical_ofRaw _)
      (fun _ n h => by rw [Code.raw_ofRaw, UInt16.toNat_ofNat_of_lt' h])
  | .addressType, _ => ofNumber 1 (fun n => Code.ofRaw (UInt8.ofNat n)) (fun v => v.raw.toNat)
      (fun _ => rfl) (fun v => (littleEndian_toNat v.raw).symm) (fun v => v.raw.toNat_lt)
      (fun v hv => by rw [UInt8.ofNat_toNat]; exact hv) (fun _ => Code.isCanonical_ofRaw _)
      (fun _ n h => by rw [Code.raw_ofRaw, UInt8.toNat_ofNat_of_lt' h])
  | .scanType, _ => ofNumber 1 (fun n => Code.ofRaw (UInt8.ofNat n)) (fun v => v.raw.toNat)
      (fun _ => rfl) (fun v => (littleEndian_toNat v.raw).symm) (fun v => v.raw.toNat_lt)
      (fun v hv => by rw [UInt8.ofNat_toNat]; exact hv) (fun _ => Code.isCanonical_ofRaw _)
      (fun _ n h => by rw [Code.raw_ofRaw, UInt8.toNat_ofNat_of_lt' h])
  | .statusFlags, _ => ofNumber 1 (fun n => ⟨UInt8.ofNat n⟩) (fun v => v.bits.toNat)
      (fun _ => rfl) (fun v => (littleEndian_toNat v.bits).symm) (fun v => v.bits.toNat_lt)
      (fun v _ => by rw [UInt8.ofNat_toNat]) (fun _ => trivial)
      (fun _ n h => UInt8.toNat_ofNat_of_lt' h)

end FixedWidth

/-! ### One field -/

namespace Cursor

variable {c c' : Cursor} {s : List UInt8} {t : WireType}

/-- **What has been written is read back**, and what follows it is left. -/
theorem read_bytes {v : WireValue} (hfits : v.Fits) (hcanonical : v.IsCanonical)
    (h : c.rest = v.bytes ++ s) :
    c.read v.1 = (.ok v.2, ⟨c.position + v.bytes.length, s⟩) := by
  obtain ⟨t, x⟩ := v
  by_cases ht : t = .bytes
  · subst ht
    have hbytes : WireValue.bytes ⟨.bytes, x⟩ = UInt8.ofNat x.length :: x :=
      WireValue.bytes_array hfits
    have hlength : (UInt8.ofNat x.length).toNat = x.length :=
      UInt8.toNat_ofNat_of_lt' (Nat.lt_succ_of_le hfits)
    rw [hbytes] at h ⊢
    show c.array = _
    rw [array_cons h, view_append (·.1) ⟨x, hlength.symm⟩ rfl]
    have hposition : c.position + 1 + (UInt8.ofNat x.length).toNat =
        c.position + (UInt8.ofNat x.length :: x).length := by
      rw [hlength, List.length_cons]
      omega
    exact congrArg (fun position => (Except.ok x, (⟨position, s⟩ : Cursor))) hposition
  · let f := FixedWidth.of t ht
    rw [f.bytes_eq] at h ⊢
    show c.read t = _
    rw [f.read_eq, view_append f.see (f.write x) h, f.see_write x hcanonical, (f.write x).2]

/-- **What is read was written**: nothing but the bytes of the value was there. -/
theorem of_read {x : t.Carrier} (ht : t ≠ .bool) (h : c.read t = (.ok x, c')) :
    WireValue.Fits ⟨t, x⟩ ∧ WireValue.IsCanonical ⟨t, x⟩ ∧
      c.rest = WireValue.bytes ⟨t, x⟩ ++ c'.rest := by
  by_cases hbytes : t = .bytes
  · subst hbytes
    have harray : c.array = (.ok x, c') := h
    rcases hrest : c.rest with _ | ⟨byte, body⟩
    · rw [array_nil hrest] at harray
      cases (Prod.mk.inj harray).1
    · rw [array_cons hrest] at harray
      obtain ⟨⟨read, hlength⟩, rfl, hbody⟩ := of_view harray
      have hfits : WireValue.Fits ⟨.bytes, read⟩ := by
        show read.length ≤ 255
        have := byte.toNat_lt
        omega
      refine ⟨hfits, trivial, ?_⟩
      rw [WireValue.bytes_array hfits, hlength, UInt8.ofNat_toNat]
      exact congrArg (byte :: ·) hbody
  · let f := FixedWidth.of t hbytes
    rw [f.read_eq] at h
    obtain ⟨bytes, rfl, hrest⟩ := of_view h
    refine ⟨?_, f.isCanonical_see bytes, ?_⟩
    · cases t <;> first | exact trivial | exact absurd rfl hbytes
    · rw [f.bytes_eq, f.write_see ht, hrest]

/-- Only missing bytes keep a field from being read. -/
theorem truncated_of_read {e : Error} (h : (c.read t).1 = .error e) :
    ∃ needed available, e = .truncated needed available ∧ available < needed := by
  by_cases ht : t = .bytes
  · subst ht
    have harray : c.array.1 = .error e := h
    rcases hrest : c.rest with _ | ⟨byte, body⟩
    · rw [array_nil hrest] at harray
      exact ⟨1, 0, (Except.error.inj harray).symm, Nat.zero_lt_one⟩
    · rw [array_cons hrest] at harray
      exact ⟨_, _, truncated_of_view harray⟩
  · rw [(FixedWidth.of t ht).read_eq] at h
    exact ⟨_, _, truncated_of_view h⟩

end Cursor

end BleHost
