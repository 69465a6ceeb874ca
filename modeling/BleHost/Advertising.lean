import BleHost.Code.Advertiser
import BleHost.Text.Utf8
import BleHost.Wire.LittleEndian

/-!
# Advertising data

An advertiser describes itself by a sequence of records, each a length byte, a tag and a value, the
length counting the tag and the value. A zero length ends the sequence, and a record whose length
runs past the end of the data is dropped; what came before either is kept. Of several records with
one tag the last one holds.

Main statements: `insert` keeps the tags strictly ascending, so that two packets with the same
records are the same packet, and `get?_insert` says what a look-up finds after an insertion.
-/

namespace BleHost

/-- A record of advertising data. -/
structure AdRecord where
  tag : UInt8
  value : List UInt8
deriving DecidableEq, Repr

namespace AdRecord

/-- The bytes of a record. -/
def bytes (r : AdRecord) : List UInt8 := UInt8.ofNat (r.value.length + 1) :: r.tag :: r.value

/-- The complete records that advertising data begin with, in the order in which they stand. -/
def readAll : List UInt8 → List AdRecord
  | [] => []
  | length :: rest =>
    if length.toNat = 0 ∨ rest.length < length.toNat then []
    else match rest.take length.toNat with
      | [] => []
      | tag :: value => ⟨tag, value⟩ :: readAll (rest.drop length.toNat)
termination_by data => data.length
decreasing_by simp only [List.length_drop, List.length_cons]; omega

/-- Put a record into a list in ascending order of tags, in place of one with the same tag. -/
def insertInto (r : AdRecord) : List AdRecord → List AdRecord
  | [] => [r]
  | s :: rest =>
    if r.tag < s.tag then r :: s :: rest
    else if r.tag = s.tag then r :: rest
    else s :: insertInto r rest

theorem mem_insertInto {r s : AdRecord} {records : List AdRecord}
    (h : s ∈ insertInto r records) : s = r ∨ s ∈ records := by
  induction records with
  | nil => simpa [insertInto] using h
  | cons t rest ih =>
    simp only [insertInto] at h
    split at h
    · simpa using h
    · split at h
      · simp only [List.mem_cons] at h ⊢; exact h.imp_right Or.inr
      · simp only [List.mem_cons] at h ⊢
        rcases h with h | h
        · exact Or.inr (Or.inl h)
        · exact (ih h).imp_right Or.inr

theorem insertInto_sorted (r : AdRecord) {records : List AdRecord}
    (h : records.Pairwise (·.tag < ·.tag)) : (insertInto r records).Pairwise (·.tag < ·.tag) := by
  induction records with
  | nil => simp [insertInto]
  | cons s rest ih =>
    obtain ⟨hs, hrest⟩ := List.pairwise_cons.1 h
    simp only [insertInto]
    split
    · rename_i hlt
      refine List.pairwise_cons.2 ⟨fun t ht => ?_, h⟩
      rcases List.mem_cons.1 ht with rfl | ht
      · exact hlt
      · exact UInt8.lt_trans hlt (hs t ht)
    · split
      · rename_i heq
        exact List.pairwise_cons.2 ⟨fun t ht => heq ▸ hs t ht, hrest⟩
      · rename_i hge hne
        refine List.pairwise_cons.2 ⟨fun t ht => ?_, ih hrest⟩
        rcases mem_insertInto ht with rfl | ht
        · have h1 : ¬ t.tag.toNat < s.tag.toNat := hge
          have h2 : t.tag.toNat ≠ s.tag.toNat := fun h => hne (UInt8.toNat_inj.1 h)
          show s.tag.toNat < t.tag.toNat
          omega
        · exact hs t ht

end AdRecord

/-- What an advertiser has said: at most one value for each tag, in ascending order of tags. -/
structure AdvertisingData where
  records : List AdRecord := []
  sorted : records.Pairwise (·.tag < ·.tag) := by simp
deriving DecidableEq, Repr

namespace AdvertisingData

instance : Inhabited AdvertisingData := ⟨{}⟩

/-- Whether nothing has been said. -/
def isEmpty (d : AdvertisingData) : Bool := d.records.isEmpty

/-- The number of tags that have a value. -/
def size (d : AdvertisingData) : Nat := d.records.length

/-- The value of a tag. -/
def get? (d : AdvertisingData) (tag : UInt8) : Option (List UInt8) :=
  (d.records.find? (·.tag == tag)).map (·.value)

/-- Take in a record, whose value then holds for its tag. -/
def insert (d : AdvertisingData) (r : AdRecord) : AdvertisingData :=
  ⟨r.insertInto d.records, AdRecord.insertInto_sorted r d.sorted⟩

/-- Take in records one after the other. -/
def insertAll (d : AdvertisingData) (records : List AdRecord) : AdvertisingData :=
  records.foldl insert d

/-- Read advertising data, whatever their bytes. -/
def decode (data : List UInt8) : AdvertisingData := insertAll {} (AdRecord.readAll data)

/-- Both packets together, the second one's value holding where both have one. -/
def merge (d e : AdvertisingData) : AdvertisingData := d.insertAll e.records

theorem get?_insert (d : AdvertisingData) (r : AdRecord) (tag : UInt8) :
    (d.insert r).get? tag = if r.tag = tag then some r.value else d.get? tag := by
  obtain ⟨records, sorted⟩ := d
  simp only [get?, insert]
  clear sorted
  induction records with
  | nil => by_cases h : r.tag = tag <;> simp [AdRecord.insertInto, h]
  | cons s rest ih =>
    simp only [AdRecord.insertInto]
    split
    · by_cases h : r.tag = tag <;> simp [h]
    · split
      · rename_i heq
        by_cases h : r.tag = tag
        · simp [h]
        · simp [h, show s.tag ≠ tag from heq ▸ h]
      · rename_i hne
        by_cases hs : s.tag = tag
        · have h : r.tag ≠ tag := fun h => hne (h.trans hs.symm)
          simp [hs, h]
        · simpa [hs] using ih

/-! ### The records that have a meaning of their own -/

/-- The value of a kind of record. -/
def value? (d : AdvertisingData) (type : RecordType) : Option (List UInt8) := d.get? type.raw

/-- The flags byte. -/
def flags? (d : AdvertisingData) : Option UInt8 :=
  (d.value? (.known .flags)).bind (·.head?)

/-- The name, the complete one if there is one, read as UTF-8 leniently. -/
def name? (d : AdvertisingData) : Option String :=
  ((d.value? (.known .nameLong)).or (d.value? (.known .nameShort))).map Text.decodeLossy

/-- The power the advertiser sends at, in dBm. -/
def txPower? (d : AdvertisingData) : Option Int8 :=
  (d.value? (.known .txPower)).bind fun value => value.head?.map (·.toInt8)

/-- The two-byte words of a byte string; a single byte at its end counts for nothing. -/
def words : List UInt8 → List UInt16
  | low :: high :: rest => UInt16.ofNat (Wire.ofLittleEndian [low, high]) :: words rest
  | _ => []

/-- The short identifiers of services: those of the complete list, then those of the incomplete
one. -/
def services (d : AdvertisingData) : List UInt16 :=
  ([RecordType.Known.uuid16Complete, .uuid16Incomplete].filterMap fun type =>
    d.value? (.known type)).flatMap words

/-- The number of the maker and the bytes that the maker gives a meaning to. -/
def maker? (d : AdvertisingData) : Option (UInt16 × List UInt8) :=
  match d.value? (.known .manufacturerSpecific) with
  | some (low :: high :: rest) => some (UInt16.ofNat (Wire.ofLittleEndian [low, high]), rest)
  | _ => none

end AdvertisingData

end BleHost
