import BleHost.Advertising
import Mathlib.Data.List.Induction
import Mathlib.Data.List.Nodup

/-!
# What a packet of advertising data holds

A packet is a map from tags to values. It is known from what a look-up finds under each tag
(`ext_get?`), and taking in records one after the other leaves under a tag the value of the last of
them that has it (`get?_insertAll`).
-/

namespace BleHost

/-- What a look-up finds in a list in which no two entries have the same key. -/
theorem find?_map_eq_some_iff {α β κ : Type} [DecidableEq κ] {key : α → κ} {content : α → β}
    {entries : List α} (h : (entries.map key).Nodup) {k : κ} {b : β} :
    (entries.find? (key · == k)).map content = some b ↔
      ∃ entry ∈ entries, key entry = k ∧ content entry = b := by
  rw [Option.map_eq_some_iff]
  constructor
  · rintro ⟨entry, hfind, hcontent⟩
    exact ⟨entry, List.mem_of_find?_eq_some hfind, by simpa using List.find?_some hfind, hcontent⟩
  · rintro ⟨entry, hmem, hkey, hcontent⟩
    have hsome : (entries.find? (key · == k)).isSome :=
      List.find?_isSome.2 ⟨entry, hmem, by simp [hkey]⟩
    obtain ⟨found, hfind⟩ := Option.isSome_iff_exists.1 hsome
    have hfound : key found = k := by simpa using List.find?_some hfind
    have heq : found = entry := List.inj_on_of_nodup_map h (List.mem_of_find?_eq_some hfind) hmem
      (hfound.trans hkey.symm)
    exact ⟨found, hfind, heq ▸ hcontent⟩

namespace AdRecord

variable {records : List AdRecord} {tag : UInt8} {value : List UInt8}

/-- The value of the last record with a tag. -/
def lastValue? (records : List AdRecord) (tag : UInt8) : Option (List UInt8) :=
  (records.filter (·.tag = tag)).getLast?.map (·.value)

theorem lastValue?_concat (records : List AdRecord) (r : AdRecord) (tag : UInt8) :
    lastValue? (records ++ [r]) tag =
      if r.tag = tag then some r.value else lastValue? records tag := by
  by_cases h : r.tag = tag <;> simp [lastValue?, List.filter_append, h]

theorem mem_of_lastValue? (h : lastValue? records tag = some value) : ⟨tag, value⟩ ∈ records := by
  obtain ⟨r, hlast, rfl⟩ := Option.map_eq_some_iff.1 h
  obtain ⟨hr, htag⟩ := List.mem_filter.1 (List.mem_of_getLast? hlast)
  rw [← of_decide_eq_true htag]
  exact hr

/-- A tag has no last value exactly if no record has it. -/
theorem lastValue?_eq_none : lastValue? records tag = none ↔ ∀ r ∈ records, r.tag ≠ tag := by
  simp [lastValue?]

end AdRecord

namespace AdvertisingData

variable {d e : AdvertisingData} {tag : UInt8} {value : List UInt8}

/-! ### The map and its records -/

/-- No two records of a packet have the same tag. -/
theorem nodup_tags (d : AdvertisingData) : (d.records.map (·.tag)).Nodup :=
  List.pairwise_map.2 (d.sorted.imp fun hlt => UInt8.ne_of_lt hlt)

theorem get?_eq_some_iff : d.get? tag = some value ↔ ⟨tag, value⟩ ∈ d.records := by
  rw [get?, find?_map_eq_some_iff d.nodup_tags]
  constructor
  · rintro ⟨r, hr, rfl, rfl⟩
    exact hr
  · exact fun h => ⟨_, h, rfl, rfl⟩

/-- Packets in which the same is found under every tag are the same packet. -/
theorem ext_get? (h : ∀ tag, d.get? tag = e.get? tag) : d = e := by
  have hmem (r : AdRecord) : r ∈ d.records ↔ r ∈ e.records := by
    rw [← get?_eq_some_iff, h, get?_eq_some_iff]
  -- the records are the same up to their order, and both packets keep them in that of their tags
  have hperm : d.records.Perm e.records :=
    (List.perm_ext_iff_of_nodup (List.Nodup.of_map _ d.nodup_tags)
      (List.Nodup.of_map _ e.nodup_tags)).2 hmem
  have heq : d.records = e.records :=
    hperm.eq_of_pairwise (fun _ _ _ _ hlt hgt => absurd hgt (UInt8.lt_asymm hlt)) d.sorted e.sorted
  cases d
  cases e
  cases heq
  rfl

/-- In whatever order the records of a packet stand, the last value of a tag is its value. -/
theorem lastValue?_of_perm {records : List AdRecord} (h : records.Perm d.records) (tag : UInt8) :
    AdRecord.lastValue? records tag = d.get? tag := by
  cases hlast : AdRecord.lastValue? records tag with
  | some value => exact (get?_eq_some_iff.2 (h.mem_iff.1 (AdRecord.mem_of_lastValue? hlast))).symm
  | none =>
    cases hget : d.get? tag with
    | none => rfl
    | some value =>
      have hmem := h.mem_iff.2 (get?_eq_some_iff.1 hget)
      exact absurd rfl (AdRecord.lastValue?_eq_none.1 hlast _ hmem)

/-! ### Taking in records -/

@[simp] theorem get?_empty (tag : UInt8) : ({} : AdvertisingData).get? tag = none := rfl

theorem insertAll_append (d : AdvertisingData) (records more : List AdRecord) :
    d.insertAll (records ++ more) = (d.insertAll records).insertAll more :=
  List.foldl_append

/-- After records have been taken in, the last one with a tag holds, or else what held before. -/
theorem get?_insertAll (d : AdvertisingData) (records : List AdRecord) (tag : UInt8) :
    (d.insertAll records).get? tag = (AdRecord.lastValue? records tag).or (d.get? tag) := by
  induction records using List.reverseRecOn with
  | nil => rfl
  | append_singleton records r ih =>
    have hstep : d.insertAll (records ++ [r]) = (d.insertAll records).insert r :=
      insertAll_append d records [r]
    rw [hstep, get?_insert, ih, AdRecord.lastValue?_concat]
    split <;> rfl

/-- The records of a packet, taken in in any order, make that packet. -/
theorem insertAll_of_perm {records : List AdRecord} (h : records.Perm d.records) :
    insertAll {} records = d :=
  ext_get? fun tag => by
    rw [get?_insertAll, get?_empty, Option.or_none, lastValue?_of_perm h]

end AdvertisingData

end BleHost
