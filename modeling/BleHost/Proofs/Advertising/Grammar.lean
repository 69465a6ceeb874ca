import BleHost.Proofs.Advertising.Lookup
import Mathlib.Logic.ExistsUnique

/-!
# The grammar of advertising data

Any bytes whatever are complete records and a rest with which none begins, in exactly one way
(`IsSplit.of_readAll`, `IsSplit.readAll_eq`): a record says how long it is, so that at every place
it is known whether one begins there. Decoding reads those records and leaves the rest alone.

Decoding can also be done in place, by walking over the data with a position (`decodeFrom?`). Every
access to the data is checked there, and none ever fails.
-/

namespace BleHost

namespace AdRecord

variable {data more rest : List UInt8} {records : List AdRecord} {r : AdRecord}

/-- Whether the length byte of a record can tell its length. -/
def Fits (r : AdRecord) : Prop := r.value.length ≤ 254

/-- What can stand behind the complete records: nothing, a zero length, or a length that the bytes
behind it do not reach. -/
def IsRest : List UInt8 → Prop
  | [] => True
  | length :: after => length = 0 ∨ after.length < length.toNat

/-- Data are complete records and a rest with which none begins. -/
structure IsSplit (data : List UInt8) (records : List AdRecord) (rest : List UInt8) : Prop where
  eq : data = records.flatMap bytes ++ rest
  fits : ∀ r ∈ records, r.Fits
  isRest : IsRest rest

/-- The length byte of a record counts the tag and the value. -/
theorem toNat_length (h : r.Fits) : (UInt8.ofNat (r.value.length + 1)).toNat = r.value.length + 1 :=
  UInt8.toNat_ofNat_of_lt' (Nat.lt_succ_of_le (Nat.succ_le_succ h))

/-- A record begins where the rest does not. -/
theorem begins_or_isRest (data : List UInt8) :
    (∃ r more, AdRecord.Fits r ∧ data = r.bytes ++ more) ∨ IsRest data := by
  obtain _ | ⟨length, after⟩ := data
  · exact .inr trivial
  · by_cases hrest : length = 0 ∨ after.length < length.toNat
    · exact .inr hrest
    · obtain ⟨hzero, hlong⟩ := not_or.1 hrest
      have hpos : length.toNat ≠ 0 := fun h => hzero (UInt8.toNat_inj.1 h)
      obtain _ | ⟨tag, after⟩ := after
      · simp only [List.length_nil] at hlong
        omega
      · simp only [List.length_cons] at hlong
        have hlen : (after.take (length.toNat - 1)).length + 1 = length.toNat := by
          rw [List.length_take]
          omega
        refine .inl ⟨⟨tag, after.take (length.toNat - 1)⟩, after.drop (length.toNat - 1), ?_, ?_⟩
        · have hlt := length.toNat_lt
          simp only [Fits]
          omega
        · rw [bytes, hlen, UInt8.ofNat_toNat, List.cons_append, List.cons_append,
            List.take_append_drop]

/-! ### Reading the records -/

/-- Reading takes a record off the front of the data. -/
theorem readAll_bytes_append (h : r.Fits) (more : List UInt8) :
    readAll (r.bytes ++ more) = r :: readAll more := by
  have hlong : ¬ (r.value.length + 1 = 0 ∨
      (r.tag :: r.value ++ more).length < r.value.length + 1) := by
    simp
  have htake : (r.tag :: r.value ++ more).take (r.value.length + 1) = r.tag :: r.value := by simp
  have hdrop : (r.tag :: r.value ++ more).drop (r.value.length + 1) = more := by simp
  rw [bytes, List.cons_append, readAll, toNat_length h, if_neg hlong, htake, hdrop]

theorem readAll_of_isRest (h : IsRest rest) : readAll rest = [] := by
  obtain _ | ⟨length, after⟩ := rest
  · rw [readAll]
  · have hshort : length.toNat = 0 ∨ after.length < length.toNat :=
      h.imp_left fun hzero => by rw [hzero]; rfl
    rw [readAll, if_pos hshort]

theorem readAll_flatMap_append (h : ∀ r ∈ records, r.Fits) (more : List UInt8) :
    readAll (records.flatMap bytes ++ more) = records ++ readAll more := by
  induction records with
  | nil => rfl
  | cons r records ih =>
    obtain ⟨hr, hrecords⟩ := List.forall_mem_cons.1 h
    rw [List.flatMap_cons, List.append_assoc, readAll_bytes_append hr, ih hrecords,
      List.cons_append]

/-- The records that are read are the only ones that the data can be split into. -/
theorem IsSplit.readAll_eq (h : IsSplit data records rest) : readAll data = records := by
  rw [h.eq, readAll_flatMap_append h.fits, readAll_of_isRest h.isRest, List.append_nil]

/-- Behind the records that are read there is a rest. -/
theorem IsSplit.of_readAll (data : List UInt8) : ∃ rest, IsSplit data (readAll data) rest := by
  -- what stands behind a record is shorter than the data that it begins
  induction hn : data.length using Nat.strongRecOn generalizing data with
  | ind n ih =>
    rcases begins_or_isRest data with ⟨r, more, hr, rfl⟩ | hrest
    · have hshorter : more.length < n := by
        rw [← hn, List.length_append, bytes, List.length_cons]
        omega
      obtain ⟨rest, hsplit⟩ := ih more.length hshorter more rfl
      refine ⟨rest, ?_, ?_, hsplit.isRest⟩
      · rw [readAll_bytes_append hr, List.flatMap_cons, List.append_assoc, ← hsplit.eq]
      · rw [readAll_bytes_append hr]
        exact List.forall_mem_cons.2 ⟨hr, hsplit.fits⟩
    · rw [readAll_of_isRest hrest]
      exact ⟨data, rfl, by simp, hrest⟩

/-- Any bytes are records and a rest in exactly one way. -/
theorem existsUnique_isSplit (data : List UInt8) :
    ∃! split : List AdRecord × List UInt8, IsSplit data split.1 split.2 := by
  obtain ⟨rest, hsplit⟩ := IsSplit.of_readAll data
  refine ⟨(readAll data, rest), hsplit, fun ⟨records, rest'⟩ hsplit' => ?_⟩
  have hrecords : readAll data = records := hsplit'.readAll_eq
  have heq := hsplit.eq.symm.trans hsplit'.eq
  rw [← hrecords] at heq
  exact Prod.ext hrecords.symm (List.append_cancel_left heq).symm

end AdRecord

namespace AdvertisingData

open AdRecord

variable {data more rest : List UInt8} {records : List AdRecord} {d : AdvertisingData}

theorem decode_of_isSplit (h : IsSplit data records rest) : decode data = insertAll {} records := by
  rw [decode, h.readAll_eq]

/-! ### Decoding in place -/

/-- The bytes between two positions, if the data reach that far. -/
def slice? (data : List UInt8) (start stop : Nat) : Option (List UInt8) :=
  if start ≤ stop ∧ stop ≤ data.length then some ((data.drop start).take (stop - start)) else none

/-- Take in the records from a position of the data on, one after the other. `none` stands for an
access outside of the data. -/
def decodeFrom? (data : List UInt8) (position : Nat) (d : AdvertisingData) :
    Option AdvertisingData :=
  if position < data.length then
    data[position]?.bind fun length =>
      if length.toNat = 0 ∨ data.length < position + 1 + length.toNat then some d
      else data[position + 1]?.bind fun tag =>
        (slice? data (position + 2) (position + 1 + length.toNat)).bind fun value =>
          decodeFrom? data (position + 1 + length.toNat) (d.insert ⟨tag, value⟩)
  else some d
termination_by data.length - position

/-- Wherever the walk has come to, it goes on to the end and reads what is left to be read. -/
theorem decodeFrom?_eq (data : List UInt8) (position : Nat) (d : AdvertisingData) :
    decodeFrom? data position d = some (d.insertAll (readAll (data.drop position))) := by
  induction hn : data.length - position using Nat.strongRecOn generalizing position d with
  | ind n ih =>
    rw [decodeFrom?]
    by_cases hposition : position < data.length
    · rw [if_pos hposition]
      rcases begins_or_isRest (data.drop position) with ⟨r, more, hr, hdrop⟩ | hrest
      · -- a record begins here, and all that is read of the data lies within it
        have hat (i : Nat) : data[position + i]? = (r.bytes ++ more)[i]? := by
          rw [← List.getElem?_drop, hdrop]
        have hlength : data[position]? = some (UInt8.ofNat (r.value.length + 1)) := hat 0
        have htag : data[position + 1]? = some r.tag := hat 1
        have hend : position + 1 + (r.value.length + 1) ≤ data.length := by
          have hlen := congrArg List.length hdrop
          simp only [List.length_drop, List.length_append, bytes, List.length_cons] at hlen
          omega
        have hvalue : slice? data (position + 2) (position + 1 + (r.value.length + 1)) =
            some r.value := by
          rw [slice?, if_pos ⟨by omega, hend⟩, ← List.drop_drop, hdrop]
          simp [bytes, show position + 1 + (r.value.length + 1) - (position + 2) = r.value.length by
            omega]
        have hmore : data.drop (position + 1 + (r.value.length + 1)) = more := by
          rw [Nat.add_assoc, ← List.drop_drop, hdrop]
          simp [bytes, Nat.add_comm 1]
        rw [hlength, Option.bind_some, toNat_length hr, if_neg (by omega), htag, Option.bind_some,
          hvalue, Option.bind_some, ih _ (by omega) _ _ rfl, hmore, hdrop, readAll_bytes_append hr]
        rfl
      · -- the length is there, and nothing behind it is looked at
        rw [readAll_of_isRest hrest, List.getElem?_eq_getElem hposition, Option.bind_some]
        rw [List.drop_eq_getElem_cons hposition, IsRest, List.length_drop] at hrest
        have hstop : data[position].toNat = 0 ∨
            data.length < position + 1 + data[position].toNat :=
          hrest.imp (fun hzero => by rw [hzero]; rfl) (fun hshort => by omega)
        rw [if_pos hstop]
        rfl
    · rw [if_neg hposition, List.drop_eq_nil_of_le (by omega), readAll]
      rfl

/-- **Advertising data are decoded by their grammar, whatever the bytes.** Any bytes are complete
records and a rest in exactly one way; decoding, which can be done in place without an access
outside of the data, gives each tag the value that the last of these records has for it, and no
other tag a value. The records of a packet, in any order, decode to that packet, and so they do in
front of a zero byte and anything else. -/
theorem decode_last_of_split (data : List UInt8) :
    (∃! split : List AdRecord × List UInt8, IsSplit data split.1 split.2) ∧
    decodeFrom? data 0 {} = some (decode data) ∧
    (∀ records rest, IsSplit data records rest → ∀ tag,
      (decode data).get? tag = lastValue? records tag) ∧
    ∀ (d : AdvertisingData) (records : List AdRecord), (∀ r ∈ d.records, r.Fits) →
      records.Perm d.records →
      decode (records.flatMap bytes) = d ∧
      ∀ junk, decode (records.flatMap bytes ++ 0 :: junk) = d := by
  refine ⟨existsUnique_isSplit data, decodeFrom?_eq data 0 {}, fun records rest hsplit tag => ?_,
    fun d records hfits hperm => ?_⟩
  · rw [decode_of_isSplit hsplit, get?_insertAll, get?_empty, Option.or_none]
  · have hfits' : ∀ r ∈ records, r.Fits := fun r hr => hfits r (hperm.mem_iff.1 hr)
    have hall (rest : List UInt8) (hrest : IsRest rest) :
        decode (records.flatMap bytes ++ rest) = d := by
      rw [decode_of_isSplit ⟨rfl, hfits', hrest⟩, insertAll_of_perm hperm]
    refine ⟨?_, fun junk => hall (0 :: junk) (.inl rfl)⟩
    have hempty := hall [] trivial
    rwa [List.append_nil] at hempty

/-- A name said twice, the second time otherwise, and a complete name that breaks off; and a packet
of two records that stand the other way round, in front of a zero byte. -/
theorem decode_last_of_split_broken_off :
    (∃ records rest, IsSplit [2, 1, 6, 2, 8, 97, 2, 8, 98, 5, 9, 120] records rest ∧
      lastValue? records 8 = some [98] ∧ lastValue? records 9 = none) ∧
    (decode [2, 1, 6, 2, 8, 97, 2, 8, 98, 5, 9, 120]).get? 8 = some [98] ∧
    (decode [2, 1, 6, 2, 8, 97, 2, 8, 98, 5, 9, 120]).get? 9 = none ∧
    decode [2, 8, 98, 2, 1, 6, 0, 2, 1, 7] = ⟨[⟨1, [6]⟩, ⟨8, [98]⟩], by decide⟩ := by
  have hsplit : IsSplit [2, 1, 6, 2, 8, 97, 2, 8, 98, 5, 9, 120]
      [⟨1, [6]⟩, ⟨8, [97]⟩, ⟨8, [98]⟩] [5, 9, 120] :=
    ⟨rfl, by simp [Fits], .inr (by decide)⟩
  have hget := (decode_last_of_split [2, 1, 6, 2, 8, 97, 2, 8, 98, 5, 9, 120]).2.2.1 _ _ hsplit
  have hturned := (decode_last_of_split []).2.2.2 ⟨[⟨1, [6]⟩, ⟨8, [98]⟩], by decide⟩
    [⟨8, [98]⟩, ⟨1, [6]⟩] (by simp [Fits]) (.swap _ _ _)
  exact ⟨⟨_, _, hsplit, rfl, rfl⟩, hget 8, hget 9, hturned.2 [2, 1, 7]⟩

end AdvertisingData

end BleHost
