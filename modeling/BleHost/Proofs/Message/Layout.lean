import BleHost.Message.Basic
import BleHost.Proofs.Wire.Payload

/-!
# Messages and the layouts of their kinds

Decoding undoes encoding, whatever bytes follow; it takes nothing less than all the bytes of a
message; and all that it yields has been encoded, in front of bytes that it ignores. The last of the
three is owed to the layouts having no truth value among their fields.
-/

namespace BleHost

/-! ### The fields of a layout -/

namespace Record

variable {fields : List Field}

/-- The values of a record, in wire order. -/
def wire (record : Record fields) : List WireValue := (values fields record).map (·.2)

@[simp] theorem wire_cons {field : Field} (value : field.type.Carrier) (record : Record fields) :
    @wire (field :: fields) (value, record) = ⟨field.type, value⟩ :: wire record := rfl

/-- A record that has been written is read back. -/
theorem read_wire {record : Record fields} {c : Cursor} {s : List UInt8}
    (hfits : ∀ v ∈ wire record, v.Fits) (hcanonical : ∀ v ∈ wire record, v.IsCanonical)
    (h : c.rest = (wire record).flatMap WireValue.bytes ++ s) :
    read fields c =
      (.ok record, ⟨c.position + ((wire record).flatMap WireValue.bytes).length, s⟩) := by
  induction fields generalizing c with
  | nil =>
    obtain ⟨position, rest⟩ := c
    obtain rfl : rest = s := h
    rfl
  | cons field fields ih =>
    obtain ⟨value, record⟩ := record
    rw [wire_cons] at hfits hcanonical h
    obtain ⟨hvalue, hrecord⟩ := List.forall_mem_cons.1 hfits
    obtain ⟨hvalue', hrecord'⟩ := List.forall_mem_cons.1 hcanonical
    rw [List.flatMap_cons, List.append_assoc] at h
    have hread := Cursor.read_bytes hvalue hvalue' h
    simp only [read, hread]
    rw [ih hrecord hrecord' rfl, wire_cons, List.flatMap_cons, List.length_append, Nat.add_assoc]

/-- A record that is read has been written. -/
theorem of_read (hbool : ∀ field ∈ fields, field.type ≠ .bool) {record : Record fields}
    {c c' : Cursor} (h : read fields c = (.ok record, c')) :
    (∀ v ∈ wire record, v.Fits ∧ v.IsCanonical) ∧
      c.rest = (wire record).flatMap WireValue.bytes ++ c'.rest := by
  induction fields generalizing c with
  | nil =>
    obtain ⟨-, rfl⟩ := Prod.mk.inj h
    exact ⟨by simp [wire, values], rfl⟩
  | cons field fields ih =>
    obtain ⟨hfield, hfields⟩ := List.forall_mem_cons.1 hbool
    rw [read] at h
    split at h
    · cases (Prod.mk.inj h).1
    rename_i value c₁ hvalue
    split at h
    · cases (Prod.mk.inj h).1
    rename_i rest c₂ hrest
    obtain ⟨hrecord, rfl⟩ := Prod.mk.inj h
    obtain rfl := Except.ok.inj hrecord
    obtain ⟨hfits, hcanonical, hbytes⟩ := Cursor.of_read hfield hvalue
    obtain ⟨hwire, hbytes'⟩ := ih hfields hrest
    refine ⟨List.forall_mem_cons.2 ⟨⟨hfits, hcanonical⟩, hwire⟩, ?_⟩
    rw [wire_cons, List.flatMap_cons, List.append_assoc, ← hbytes', hbytes]

/-- Only missing bytes keep a record from being read. -/
theorem truncated_of_read {c : Cursor} {e : Error} (h : (read fields c).1 = .error e) :
    ∃ needed available, e = .truncated needed available ∧ available < needed := by
  induction fields generalizing c with
  | nil => cases h
  | cons field fields ih =>
    rw [read] at h
    split at h
    · rename_i e' c' hfield
      obtain rfl := Except.error.inj h
      exact Cursor.truncated_of_read (congrArg Prod.fst hfield)
    split at h
    · rename_i e' c' hfields
      obtain rfl := Except.error.inj h
      exact ih (congrArg Prod.fst hfields)
    · cases h

end Record

/-- No kind of message has a truth value among its fields. -/
theorem MessageKind.type_ne_bool (kind : MessageKind) :
    ∀ field ∈ kind.layout, field.type ≠ .bool := by
  cases kind <;> decide

/-! ### Messages -/

namespace Message

/-- The values of a message, in wire order. -/
def wire (m : Message) : List WireValue := m.fields.wire

/-- Whether a message can be written: its byte arrays have at most 255 bytes. -/
def Fits (m : Message) : Prop := ∀ v ∈ m.wire, v.Fits

/-- Whether a message is what its bytes are read as: none of its codes hides a name. -/
def IsCanonical (m : Message) : Prop := ∀ v ∈ m.wire, v.IsCanonical

instance : DecidablePred Fits := fun m => inferInstanceAs (Decidable (∀ v ∈ m.wire, v.Fits))

instance : DecidablePred IsCanonical :=
  fun m => inferInstanceAs (Decidable (∀ v ∈ m.wire, v.IsCanonical))

/-- The bytes that a message is written as, if it can be written. -/
def bytes (m : Message) : List UInt8 := m.wire.flatMap WireValue.bytes

variable {m : Message} {kind : MessageKind} {payload : List UInt8}

theorem encode_eq_ok (h : m.Fits) : m.encode = .ok m.bytes := by
  have hput : Writer.putAll {} (m.values.map (·.2)) = .ok ⟨m.bytes⟩ := Writer.putAll_of_fits h
  rw [encode, hput]
  rfl

theorem decode_bytes (hfits : m.Fits) (hcanonical : m.IsCanonical) (s : List UInt8) :
    decode m.kind (m.bytes ++ s) = .ok m := by
  have hread := Record.read_wire (c := .start (m.bytes ++ s)) hfits hcanonical rfl
  rw [decode, hread]
  rfl

theorem of_decode (h : decode kind payload = .ok m) :
    m.kind = kind ∧ m.Fits ∧ m.IsCanonical ∧ ∃ s, payload = m.bytes ++ s := by
  rw [decode] at h
  rcases hread : Record.read kind.layout (.start payload) with ⟨_ | record, c⟩
  · rw [hread] at h
    cases h
  · rw [hread] at h
    obtain rfl := Except.ok.inj h
    obtain ⟨hwire, hrest⟩ := Record.of_read kind.type_ne_bool hread
    exact ⟨rfl, fun v hv => (hwire v hv).1, fun v hv => (hwire v hv).2, c.rest, hrest⟩

theorem truncated_of_decode {e : Error} (h : decode kind payload = .error e) :
    ∃ needed available, e = .truncated needed available ∧ available < needed := by
  rw [decode] at h
  cases hread : (Record.read kind.layout (.start payload)).1 with
  | error e' =>
    rw [hread] at h
    obtain rfl := Except.error.inj h
    exact Record.truncated_of_read hread
  | ok record =>
    rw [hread] at h
    cases h

/-- From the first bytes of a message no message is read, unless they are all of them. -/
theorem eq_of_initial (hfits : m.Fits) (hcanonical : m.IsCanonical) (hinitial : payload <+: m.bytes)
    {m' : Message} (h : decode m.kind payload = .ok m') : payload = m.bytes := by
  obtain ⟨t, ht⟩ := hinitial
  obtain ⟨hkind, hfits', hcanonical', s, rfl⟩ := of_decode h
  -- what is read from the first bytes is also read from all of them, where the message itself is
  have hdecode' := decode_bytes hfits' hcanonical' (s ++ t)
  have hdecode := decode_bytes hfits hcanonical []
  rw [← List.append_assoc, ht, hkind] at hdecode'
  rw [List.append_nil, hdecode'] at hdecode
  obtain rfl := Except.ok.inj hdecode
  have hnil : s ++ t = [] := by simpa [List.append_assoc] using ht
  rw [(List.append_eq_nil_iff.1 hnil).1, List.append_nil]

/-- **Decoding is the inverse of the layout.** For every kind of message: a message in canonical
form whose byte arrays fit is read back from its bytes, whatever follows them; from less than its
bytes nothing is read, for bytes are missing; and what is read from any payload is canonical and has
its bytes at the front of it. -/
theorem decode_inverse (kind : MessageKind) :
    (∀ fields : Record kind.layout, Fits ⟨kind, fields⟩ → IsCanonical ⟨kind, fields⟩ →
      ∃ bytes, encode ⟨kind, fields⟩ = .ok bytes ∧
        (∀ s, decode kind (bytes ++ s) = .ok ⟨kind, fields⟩) ∧
        ∀ p, p <+: bytes → p ≠ bytes → ∃ needed available,
          decode kind p = .error (.truncated needed available) ∧ available < needed) ∧
    ∀ payload m, decode kind payload = .ok m →
      m.kind = kind ∧ m.IsCanonical ∧ ∃ bytes s, m.encode = .ok bytes ∧ payload = bytes ++ s := by
  constructor
  · intro fields hfits hcanonical
    refine ⟨_, encode_eq_ok hfits, fun s => decode_bytes hfits hcanonical s, fun p hp hne => ?_⟩
    cases hdecode : decode kind p with
    | ok m => exact absurd (eq_of_initial hfits hcanonical hp hdecode) hne
    | error e =>
      obtain ⟨needed, available, rfl, hlt⟩ := truncated_of_decode hdecode
      exact ⟨needed, available, rfl, hlt⟩
  · intro payload m h
    obtain ⟨hkind, hfits, hcanonical, s, hs⟩ := of_decode h
    exact ⟨hkind, hcanonical, m.bytes, s, encode_eq_ok hfits, hs⟩

/-- A scan response of -60 dBm with one byte of data, read from its twelve bytes and one more, and
not from two of them. -/
theorem decode_inverse_gapScanResponse :
    Fits ⟨.gapScanResponse,
      (-60, .known .scanResponse, ⟨[1, 2, 3, 4, 5, 6], rfl⟩, .unknown 9, 255, [7], ())⟩ ∧
    IsCanonical ⟨.gapScanResponse,
      (-60, .known .scanResponse, ⟨[1, 2, 3, 4, 5, 6], rfl⟩, .unknown 9, 255, [7], ())⟩ ∧
    decode .gapScanResponse [0xc4, 4, 1, 2, 3, 4, 5, 6, 9, 255, 1, 7, 0] =
      .ok ⟨.gapScanResponse,
        (-60, .known .scanResponse, ⟨[1, 2, 3, 4, 5, 6], rfl⟩, .unknown 9, 255, [7], ())⟩ ∧
    ∃ needed available, decode .gapScanResponse [0xc4, 4] =
      .error (.truncated needed available) ∧ available < needed := by
  obtain ⟨bytes, hencode, hdecode, hshort⟩ := (decode_inverse .gapScanResponse).1
    (-60, .known .scanResponse, ⟨[1, 2, 3, 4, 5, 6], rfl⟩, .unknown 9, 255, [7], ())
    (by decide) (by decide)
  obtain rfl : [0xc4, 4, 1, 2, 3, 4, 5, 6, 9, 255, 1, 7] = bytes := Except.ok.inj hencode
  exact ⟨by decide, by decide, hdecode [0], hshort [0xc4, 4] (by decide) (by decide)⟩

end Message

end BleHost
