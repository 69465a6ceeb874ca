import BleHost.Proofs.Advertising.Grammar

/-!
# Merging advertising data

Merging overwrites: a look-up in two packets together finds what the second one says, and what the
first one says where the second says nothing (`get?_merge`). Since a packet is known from its
look-ups, the laws of merging are laws of `Option.or`, and merging what has been decoded is decoding
one behind the other (`merge_insertAll`).
-/

namespace BleHost.AdvertisingData

open AdRecord

variable {d e : AdvertisingData} {records : List AdRecord} {tag : UInt8}

/-- Whether two packets say the same wherever both say something. -/
def Agree (d e : AdvertisingData) : Prop :=
  ∀ tag value value', d.get? tag = some value → e.get? tag = some value' → value = value'

theorem get?_merge (d e : AdvertisingData) (tag : UInt8) :
    (d.merge e).get? tag = (e.get? tag).or (d.get? tag) := by
  rw [merge, get?_insertAll, lastValue?_of_perm (.refl _)]

/-- Merging with the packet that records make is taking in the records. -/
theorem merge_insertAll (d : AdvertisingData) (records : List AdRecord) :
    d.merge (insertAll {} records) = d.insertAll records :=
  ext_get? fun tag => by
    rw [get?_merge, get?_insertAll, get?_insertAll, get?_empty, Option.or_none]

theorem merge_assoc (d e f : AdvertisingData) : (d.merge e).merge f = d.merge (e.merge f) :=
  ext_get? fun tag => by simp only [get?_merge, Option.or_assoc]

theorem merge_self (d : AdvertisingData) : d.merge d = d :=
  ext_get? fun tag => by rw [get?_merge, Option.or_self]

theorem empty_merge (d : AdvertisingData) : ({} : AdvertisingData).merge d = d :=
  ext_get? fun tag => by rw [get?_merge, get?_empty, Option.or_none]

/-- Packets can be merged either way round exactly if they agree. -/
theorem merge_comm_iff : d.merge e = e.merge d ↔ d.Agree e := by
  constructor
  · intro h tag value value' hd he
    have hget := congrArg (·.get? tag) h
    simp only [get?_merge, hd, he, Option.some_or, Option.some.injEq] at hget
    exact hget.symm
  · intro h
    refine ext_get? fun tag => ?_
    rw [get?_merge, get?_merge]
    cases hd : d.get? tag with
    | none => rw [Option.or_none, Option.none_or]
    | some value =>
      cases he : e.get? tag with
      | none => rfl
      | some value' => rw [Option.some_or, Option.some_or, h tag value value' hd he]

/-- Complete records can be decoded by themselves, and what follows them too. -/
theorem decode_append {a : List UInt8} (h : IsSplit a records []) (b : List UInt8) :
    decode (a ++ b) = (decode a).merge (decode b) := by
  have hread : readAll (a ++ b) = records ++ readAll b := by
    rw [h.eq, List.append_nil, readAll_flatMap_append h.fits]
  calc decode (a ++ b)
      = (insertAll {} records).insertAll (readAll b) := by rw [decode, hread, insertAll_append]
    _ = (decode a).merge (decode b) := by rw [decode_of_isSplit h, ← merge_insertAll]; rfl

/-- **Merging is concatenation, and biased to the right.** Decoding complete records and whatever
follows them is decoding both and merging. Merging is associative and idempotent, the empty packet
changes nothing on either side, a look-up finds what the second packet says or else what the first
one says, and two packets can be merged either way round, by themselves or into a third one, exactly
if they agree. -/
theorem merge_rightBiased :
    (∀ (a b : List UInt8) (records : List AdRecord), IsSplit a records [] →
      decode (a ++ b) = (decode a).merge (decode b)) ∧
    (∀ d e f : AdvertisingData, (d.merge e).merge f = d.merge (e.merge f)) ∧
    (∀ d : AdvertisingData, d.merge d = d ∧ ({} : AdvertisingData).merge d = d ∧ d.merge {} = d) ∧
    (∀ (d e : AdvertisingData) (tag : UInt8),
      (d.merge e).get? tag = (e.get? tag).or (d.get? tag)) ∧
    ∀ d e : AdvertisingData, (d.merge e = e.merge d ↔ d.Agree e) ∧
      (d.Agree e → ∀ f : AdvertisingData, (f.merge d).merge e = (f.merge e).merge d) := by
  refine ⟨fun a b records h => decode_append h b, merge_assoc,
    fun d => ⟨merge_self d, empty_merge d, rfl⟩, get?_merge, fun d e => ⟨merge_comm_iff, ?_⟩⟩
  intro h f
  rw [merge_assoc, merge_comm_iff.2 h, ← merge_assoc]

/-- Records decoded by themselves and with others behind them that break off; and two packets that
give the same name, merged either way round into one that gives another. -/
theorem merge_rightBiased_names :
    (∃ records, IsSplit [2, 1, 6, 2, 8, 97] records []) ∧
    decode [2, 1, 6, 2, 8, 97, 2, 8, 98, 3] =
      (decode [2, 1, 6, 2, 8, 97]).merge (decode [2, 8, 98, 3]) ∧
    Agree ⟨[⟨1, [6]⟩, ⟨8, [98]⟩], by decide⟩ ⟨[⟨8, [98]⟩, ⟨10, [4]⟩], by decide⟩ ∧
    (merge ⟨[⟨8, [97]⟩], by decide⟩ ⟨[⟨1, [6]⟩, ⟨8, [98]⟩], by decide⟩).merge
        ⟨[⟨8, [98]⟩, ⟨10, [4]⟩], by decide⟩ =
      (merge ⟨[⟨8, [97]⟩], by decide⟩ ⟨[⟨8, [98]⟩, ⟨10, [4]⟩], by decide⟩).merge
        ⟨[⟨1, [6]⟩, ⟨8, [98]⟩], by decide⟩ := by
  have hsplit : IsSplit [2, 1, 6, 2, 8, 97] [⟨1, [6]⟩, ⟨8, [97]⟩] [] :=
    ⟨rfl, by simp [Fits], trivial⟩
  have hagree : Agree ⟨[⟨1, [6]⟩, ⟨8, [98]⟩], by decide⟩ ⟨[⟨8, [98]⟩, ⟨10, [4]⟩], by decide⟩ := by
    intro tag value value' hd he
    simp only [get?_eq_some_iff, List.mem_cons, AdRecord.mk.injEq, List.not_mem_nil, or_false]
      at hd he
    rcases hd with ⟨rfl, rfl⟩ | ⟨rfl, rfl⟩ <;> simp_all
  exact ⟨⟨_, hsplit⟩, merge_rightBiased.1 [2, 1, 6, 2, 8, 97] [2, 8, 98, 3] _ hsplit, hagree,
    (merge_rightBiased.2.2.2.2 _ _).2 hagree _⟩

end BleHost.AdvertisingData
