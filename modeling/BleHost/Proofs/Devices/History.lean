import BleHost.Devices
import BleHost.Proofs.Advertising.Merging
import Mathlib.Data.Finset.Card

/-!
# The table of devices as a function of the reports

What the table holds under an address is made of the reports that came from there, in their order,
and of no others (`get?_ofReports`). So it can be told report by report of one sender what a device
keeps (`Device.Tells`): the latest signal strength and type, the number of reports, and under every
tag the latest value that was said.
-/

namespace BleHost

/-- The reports that came from an address, in their order. -/
def reportsOf (reports : List ScanReport) (address : Address) : List ScanReport :=
  reports.filter (·.sender = address)

theorem reportsOf_concat (reports : List ScanReport) (r : ScanReport) (address : Address) :
    reportsOf (reports ++ [r]) address =
      if r.sender = address then reportsOf reports address ++ [r]
      else reportsOf reports address := by
  by_cases h : r.sender = address <;> simp [reportsOf, List.filter_append, h]

theorem mem_reportsOf {reports : List ScanReport} {address : Address} {r : ScanReport} :
    r ∈ reportsOf reports address ↔ r ∈ reports ∧ r.sender = address := by
  simp [reportsOf]

/-! ### One device -/

namespace Device

/-- What is known with a further report, something being known already or nothing. -/
def heard (known : Option Device) (r : ScanReport) : Device :=
  known.elim (.ofReport r) (·.hear r)

/-- The device that reports tell of, if there are any. -/
def ofReports? (reports : List ScanReport) : Option Device :=
  reports.foldl (fun known r => some (heard known r)) none

theorem ofReports?_concat (reports : List ScanReport) (r : ScanReport) :
    ofReports? (reports ++ [r]) = some (heard (ofReports? reports) r) := by
  rw [ofReports?, List.foldl_concat]
  rfl

theorem ofReports?_eq_none {reports : List ScanReport} :
    ofReports? reports = none ↔ reports = [] := by
  induction reports using List.reverseRecOn with
  | nil => exact ⟨fun _ => rfl, fun _ => rfl⟩
  | append_singleton reports r => simp [ofReports?_concat]

/-- A device tells of some reports, all in all. -/
structure Tells (d : Device) (reports : List ScanReport) : Prop where
  address : reports.head?.map (·.sender) = some d.address
  seen : d.seen = UInt32.ofNat reports.length
  latest : ∃ r, reports.getLast? = some r ∧ d.rssi = r.rssi ∧ d.addressType = r.addressType
  /-- The value of a tag is the one that the latest report to have one gives it. -/
  said : ∀ tag, d.advertising.get? tag =
    (reports.filterMap (·.advertising.get? tag)).getLast?

theorem tells_ofReport (r : ScanReport) : (ofReport r).Tells [r] where
  address := rfl
  seen := rfl
  latest := ⟨r, rfl, rfl, rfl⟩
  said tag := by
    cases h : r.advertising.get? tag <;> simp [ofReport, h]

/-- A device that hears of another report tells of that one too. -/
theorem Tells.hear {d : Device} {reports : List ScanReport} (h : d.Tells reports) (r : ScanReport) :
    (d.hear r).Tells (reports ++ [r]) where
  address := by
    -- the first report remains the first one, for there is one
    obtain ⟨first, hhead, -⟩ := Option.map_eq_some_iff.1 h.address
    rw [List.head?_append, hhead, Option.some_or, ← hhead]
    exact h.address
  seen := by
    rw [List.length_append, List.length_singleton, UInt32.ofNat_add, ← h.seen]
    rfl
  latest := ⟨r, List.getLast?_concat, rfl, rfl⟩
  said tag := by
    have hget : (d.hear r).advertising.get? tag =
        (r.advertising.get? tag).or (d.advertising.get? tag) :=
      AdvertisingData.get?_merge d.advertising r.advertising tag
    rw [hget, List.filterMap_append, List.getLast?_append, h.said]
    cases h : r.advertising.get? tag <;> simp [h]

theorem tells_of_ofReports? {d : Device} {reports : List ScanReport}
    (h : ofReports? reports = some d) : d.Tells reports := by
  induction reports using List.reverseRecOn generalizing d with
  | nil => cases h
  | append_singleton reports r ih =>
    rw [ofReports?_concat] at h
    cases hknown : ofReports? reports with
    | none =>
      rw [hknown] at h
      cases h
      rw [ofReports?_eq_none.1 hknown]
      exact tells_ofReport r
    | some known =>
      rw [hknown] at h
      cases h
      exact (ih hknown).hear r

end Device

/-! ### All devices -/

namespace DeviceTable

variable {t : DeviceTable} {reports : List ScanReport} {address : Address} {d : Device}

/-- The table after some reports. -/
def ofReports (reports : List ScanReport) : DeviceTable :=
  reports.foldl (fun t r => (t.update r).2) .empty

theorem ofReports_concat (reports : List ScanReport) (r : ScanReport) :
    ofReports (reports ++ [r]) = ((ofReports reports).update r).2 :=
  List.foldl_concat ..

theorem get?_eq_some_iff : t.get? address = some d ↔ (address, d) ∈ t.entries := by
  rw [get?, find?_map_eq_some_iff t.nodup]
  constructor
  · rintro ⟨⟨key, device⟩, hmem, rfl, rfl⟩
    exact hmem
  · exact fun h => ⟨_, h, rfl, rfl⟩

/-- There is a device under exactly those addresses that are keys. -/
theorem mem_keys_iff : address ∈ t.entries.map (·.1) ↔ t.get? address ≠ none := by
  rw [Option.ne_none_iff_exists']
  simp only [get?_eq_some_iff, List.mem_map, Prod.exists, exists_and_right, exists_eq_right]

theorem update_fst (t : DeviceTable) (r : ScanReport) :
    (t.update r).1 = true ↔ t.get? r.sender = none := by
  rw [update]
  cases t.get? r.sender <;> simp

/-- A report changes what is known of its sender and of nobody else. -/
theorem get?_update (t : DeviceTable) (r : ScanReport) (address : Address) :
    (t.update r).2.get? address =
      if r.sender = address then some (Device.heard (t.get? address) r) else t.get? address := by
  have hupdate : (t.update r).2 = t.insert r.sender (Device.heard (t.get? r.sender) r) := by
    rw [update]
    cases t.get? r.sender <;> rfl
  rw [hupdate, get?_insert]
  by_cases h : r.sender = address
  · rw [if_pos h, if_pos h, h]
  · rw [if_neg h, if_neg h]

/-- What is known of a sender is what its own reports tell. -/
theorem get?_ofReports (reports : List ScanReport) (address : Address) :
    (ofReports reports).get? address = Device.ofReports? (reportsOf reports address) := by
  induction reports using List.reverseRecOn with
  | nil => rfl
  | append_singleton reports r ih =>
    rw [ofReports_concat, get?_update, ih, reportsOf_concat]
    split
    · rw [Device.ofReports?_concat]
    · rfl

theorem get?_ofReports_eq_none :
    (ofReports reports).get? address = none ↔ ∀ r ∈ reports, r.sender ≠ address := by
  rw [get?_ofReports, Device.ofReports?_eq_none, List.eq_nil_iff_forall_not_mem]
  simp [mem_reportsOf]

theorem tells_of_get? (h : (ofReports reports).get? address = some d) :
    d.Tells (reportsOf reports address) :=
  Device.tells_of_ofReports? (get?_ofReports reports address ▸ h)

/-- Every device stands under its own address. -/
theorem address_of_get? (h : (ofReports reports).get? address = some d) : d.address = address := by
  obtain ⟨r, hhead, hsender⟩ := Option.map_eq_some_iff.1 (tells_of_get? h).address
  rw [← hsender]
  exact (mem_reportsOf.1 (List.mem_of_head? hhead)).2

/-- There are as many devices as senders. -/
theorem size_ofReports (reports : List ScanReport) :
    (ofReports reports).size = (reports.map (·.sender)).toFinset.card := by
  have hkeys : ((ofReports reports).entries.map (·.1)).toFinset =
      (reports.map (·.sender)).toFinset := by
    ext address
    rw [List.mem_toFinset, mem_keys_iff, Ne, get?_ofReports_eq_none, List.mem_toFinset]
    simp
  rw [← hkeys, List.toFinset_card_of_nodup (ofReports reports).nodup, List.length_map, size]

/-- **The table is a function of the reports.** A report is the first one of its sender exactly if
none before it came from there; there are as many devices as senders; a device stands under the
address of its sender and has been seen as often as that one has reported (in 32 bits), with the
signal strength and the type of address of the latest report, and with the value of every tag that
the latest report to have one gave it. Nothing in it hangs on what others have reported, nor on when
they did. -/
theorem ofReports_tells (reports : List ScanReport)
    (hfew : ∀ address, (reportsOf reports address).length < UInt32.size) :
    (∀ before r, ((ofReports before).update r).1 = true ↔ ∀ s ∈ before, s.sender ≠ r.sender) ∧
    (ofReports reports).size = (reports.map (·.sender)).toFinset.card ∧
    (∀ address, (ofReports reports).get? address = none ↔ ∀ r ∈ reports, r.sender ≠ address) ∧
    (∀ address d, (ofReports reports).get? address = some d →
      d.address = address ∧
      d.seen.toNat = (reportsOf reports address).length ∧
      (∃ r, (reportsOf reports address).getLast? = some r ∧
        d.rssi = r.rssi ∧ d.addressType = r.addressType) ∧
      ∀ tag, d.advertising.get? tag =
        ((reportsOf reports address).filterMap (·.advertising.get? tag)).getLast?) ∧
    ∀ other address, reportsOf other address = reportsOf reports address →
      (ofReports other).get? address = (ofReports reports).get? address := by
  refine ⟨fun before r => ?_, size_ofReports reports, fun address => get?_ofReports_eq_none,
    fun address d h => ?_, fun other address h => ?_⟩
  · rw [update_fst, get?_ofReports_eq_none]
  · have htells := tells_of_get? h
    refine ⟨address_of_get? h, ?_, htells.latest, htells.said⟩
    rw [htells.seen, UInt32.toNat_ofNat_of_lt' (hfew address)]
  · rw [get?_ofReports, get?_ofReports, h]

/-- Two senders, of which the first gives its name twice, in different ways. -/
def twoSenders : List ScanReport :=
  [⟨-50, .known .connectableAdvertisement, .zero, .known .publicAddress, 255, [2, 1, 6, 2, 8, 97]⟩,
   ⟨-40, .known .scanResponse, ⟨[1, 0, 0, 0, 0, 0], rfl⟩, .known .randomAddress, 255, [2, 8]⟩,
   ⟨-55, .known .scanResponse, .zero, .known .randomAddress, 255, [2, 8, 98, 0, 2, 1, 7]⟩]

theorem ofReports_tells_twoSenders :
    (∀ address, (reportsOf twoSenders address).length < UInt32.size) ∧
    (ofReports twoSenders).size = 2 ∧
    ∃ d, (ofReports twoSenders).get? .zero = some d ∧ d.seen.toNat = 2 ∧ d.rssi = -55 ∧
      d.addressType = .known .randomAddress ∧ d.advertising.get? 1 = some [6] ∧
      d.advertising.get? 8 = some [98] := by
  have hfew (address : Address) : (reportsOf twoSenders address).length < UInt32.size :=
    Nat.lt_of_le_of_lt (List.length_filter_le _ _) (by decide)
  obtain ⟨-, hsize, hnone, htells, -⟩ := ofReports_tells twoSenders hfew
  have hsome : (ofReports twoSenders).get? .zero ≠ none := fun h =>
    (hnone .zero).1 h _ List.mem_cons_self rfl
  obtain ⟨d, hd⟩ := Option.ne_none_iff_exists'.1 hsome
  obtain ⟨-, hseen, ⟨r, hlast, hrssi, htype⟩, hsaid⟩ := htells .zero d hd
  cases hlast
  have hfirst := AdvertisingData.decode_of_isSplit
    (⟨rfl, by simp [AdRecord.Fits], trivial⟩ :
      AdRecord.IsSplit [2, 1, 6, 2, 8, 97] [⟨1, [6]⟩, ⟨8, [97]⟩] [])
  have hsecond := AdvertisingData.decode_of_isSplit
    (⟨rfl, by simp [AdRecord.Fits], .inl rfl⟩ :
      AdRecord.IsSplit [2, 8, 98, 0, 2, 1, 7] [⟨8, [98]⟩] [0, 2, 1, 7])
  have hall (tag : UInt8) : d.advertising.get? tag =
      ([AdvertisingData.decode [2, 1, 6, 2, 8, 97],
        AdvertisingData.decode [2, 8, 98, 0, 2, 1, 7]].filterMap (·.get? tag)).getLast? :=
    hsaid tag
  rw [hfirst, hsecond] at hall
  exact ⟨hfew, hsize, d, hd, hseen, hrssi, htype, hall 1, hall 8⟩

end DeviceTable

end BleHost
