import BleHost.Proofs.Devices.History

/-!
# The order in which devices are reported

The stronger signal comes first, and of equal ones the lower address. Among devices with addresses
of their own this is a strict order, so that there is only one way to put them
(`Device.eq_bySignal`): in what order a table gives its devices out does not matter. In a table made
by reports every device stands under its own address, and so no two have the same one.
-/

namespace BleHost

theorem Address.eq_of_wire {a b : Address} (h : a.wire = b.wire) : a = b := by
  cases a
  cases b
  cases h
  rfl

namespace Device

variable {d e : Device} {devices : List Device}

/-- A device comes before another one: its signal is stronger, or it is as strong and the address is
lower, the first byte on the wire in which they differ deciding. -/
def Before (d e : Device) : Prop :=
  e.rssi.toInt < d.rssi.toInt ∨ d.rssi = e.rssi ∧ d.address.wire < e.address.wire

theorem Before.asymm (h : d.Before e) : ¬ e.Before d := by
  rintro (hrssi | ⟨heq, haddress⟩)
  · rcases h with hrssi' | ⟨heq, -⟩
    · omega
    · rw [heq] at hrssi
      omega
  · rcases h with hrssi | ⟨-, haddress'⟩
    · rw [heq] at hrssi
      omega
    · exact List.lt_asymm haddress haddress'

theorem le_iff : d.le e = true ↔
    e.rssi.toInt < d.rssi.toInt ∨ d.rssi = e.rssi ∧ d.address.wire ≤ e.address.wire := by
  rw [le, ← Int8.lt_iff_toInt_lt]
  by_cases h : d.rssi = e.rssi
  · rw [if_pos h, Address.le, ← List.not_lt, h]
    simp [Int8.lt_irrefl]
  · simp [h]

theorem le_trans (a b c : Device) (hab : a.le b = true) (hbc : b.le c = true) : a.le c = true := by
  rw [le_iff] at hab hbc ⊢
  rcases hab with hab | ⟨hab, hab'⟩
  · left
    rcases hbc with hbc | ⟨hbc, -⟩
    · omega
    · rwa [← hbc]
  · rcases hbc with hbc | ⟨hbc, hbc'⟩
    · exact .inl (hab ▸ hbc)
    · exact .inr ⟨hab.trans hbc, List.le_trans hab' hbc'⟩

theorem le_total (a b : Device) : (a.le b || b.le a) = true := by
  rw [Bool.or_eq_true, le_iff, le_iff]
  by_cases h : a.rssi = b.rssi
  · exact (List.le_total a.address.wire b.address.wire).imp (.inr ⟨h, ·⟩) (.inr ⟨h.symm, ·⟩)
  · have hne : a.rssi.toInt ≠ b.rssi.toInt := fun heq => h (Int8.toInt_inj.1 heq)
    rcases Int.lt_or_gt_of_ne hne with hlt | hgt
    · exact .inr (.inl hlt)
    · exact .inl (.inl hgt)

theorem bySignal_perm (devices : List Device) : (bySignal devices).Perm devices :=
  List.mergeSort_perm devices le

theorem before_of_le (h : d.le e = true) (hne : d.address ≠ e.address) : d.Before e := by
  refine (le_iff.1 h).imp_right fun ⟨hrssi, hle⟩ => ⟨hrssi, ?_⟩
  by_contra hlt
  exact hne (Address.eq_of_wire (List.le_antisymm hle hlt))

/-- Devices with addresses of their own are put into a strict order. -/
theorem sorted_bySignal (h : (devices.map (·.address)).Nodup) :
    (bySignal devices).Pairwise Before := by
  have hle : (bySignal devices).Pairwise fun d e => d.le e = true :=
    List.pairwise_mergeSort le_trans le_total devices
  have hne : ((bySignal devices).map (·.address)).Nodup :=
    ((bySignal_perm devices).map _).nodup_iff.2 h
  exact (hle.and (List.pairwise_map.1 hne)).imp fun ⟨hle, hne⟩ => before_of_le hle hne

/-- There is only one way to put devices with addresses of their own. -/
theorem eq_bySignal {order : List Device} (h : (devices.map (·.address)).Nodup)
    (hperm : order.Perm devices) (hsorted : order.Pairwise Before) : order = bySignal devices :=
  (hperm.trans (bySignal_perm devices).symm).eq_of_pairwise
    (fun _ _ _ _ hlt hgt => absurd hgt hlt.asymm) hsorted (sorted_bySignal h)

theorem bySignal_eq_of_perm {order : List Device} (h : (devices.map (·.address)).Nodup)
    (hperm : order.Perm devices) : bySignal order = bySignal devices :=
  eq_bySignal h ((bySignal_perm order).trans hperm)
    (sorted_bySignal ((hperm.map _).nodup_iff.2 h))

end Device

namespace DeviceTable

variable {t t' : DeviceTable}

/-- Tables in which the same is found under every address hold the same entries. -/
theorem entries_perm_of_get? (h : ∀ address, t.get? address = t'.get? address) :
    t.entries.Perm t'.entries := by
  refine (List.perm_ext_iff_of_nodup (.of_map _ t.nodup) (.of_map _ t'.nodup)).2 ?_
  intro ⟨address, d⟩
  rw [← get?_eq_some_iff, h, get?_eq_some_iff]

/-- No two devices have the same address. -/
theorem nodup_addresses (reports : List ScanReport) :
    (((ofReports reports).entries.map (·.2)).map (·.address)).Nodup := by
  have hkeys : ((ofReports reports).entries.map (·.2)).map (·.address) =
      (ofReports reports).entries.map (·.1) := by
    rw [List.map_map]
    exact List.map_congr_left fun entry hentry => address_of_get? (get?_eq_some_iff.2 hentry)
  rw [hkeys]
  exact (ofReports reports).nodup

/-- **The order of the report is canonical.** Every device that is known is reported exactly once,
in descending order of signal strengths and, among equal ones, in ascending order of the addresses
as they stand on the wire. No two places could be exchanged: in whatever order the entries are given
out, they are put the same way, and so they are after any reports that leave the same entries. -/
theorem bySignal_canonical (reports : List ScanReport) :
    (ofReports reports).bySignal.Nodup ∧
    (∀ d, d ∈ (ofReports reports).bySignal ↔
      ∃ address, (ofReports reports).get? address = some d) ∧
    (ofReports reports).bySignal.Pairwise Device.Before ∧
    (∀ order : List (Address × Device), order.Perm (ofReports reports).entries →
      Device.bySignal (order.map (·.2)) = (ofReports reports).bySignal) ∧
    ∀ other, (∀ address, (ofReports other).get? address = (ofReports reports).get? address) →
      (ofReports other).bySignal = (ofReports reports).bySignal := by
  have hnodup := nodup_addresses reports
  have hsorted := Device.sorted_bySignal hnodup
  have hperm {order : List (Address × Device)} (h : order.Perm (ofReports reports).entries) :
      Device.bySignal (order.map (·.2)) = (ofReports reports).bySignal :=
    Device.bySignal_eq_of_perm hnodup (h.map _)
  refine ⟨hsorted.imp fun hbefore heq => ?_, fun d => ?_, hsorted, fun order => hperm,
    fun other h => hperm (entries_perm_of_get? h)⟩
  · cases heq
    exact hbefore.asymm hbefore
  · rw [bySignal, (Device.bySignal_perm _).mem_iff]
    simp [get?_eq_some_iff]

/-- Two senders that are heard equally well. -/
def equallyStrong : List ScanReport :=
  [⟨-50, .known .scanResponse, ⟨[0, 0, 0, 0, 0, 1], rfl⟩, .known .publicAddress, 255, [2, 8, 97]⟩,
   ⟨-50, .known .scanResponse, .zero, .known .randomAddress, 255, [2, 8, 98]⟩]

theorem bySignal_canonical_equallyStrong :
    (∀ address, (ofReports equallyStrong.reverse).get? address =
      (ofReports equallyStrong).get? address) ∧
    (ofReports equallyStrong.reverse).bySignal = (ofReports equallyStrong).bySignal ∧
    (ofReports equallyStrong).entries.reverse.Perm (ofReports equallyStrong).entries ∧
    Device.bySignal ((ofReports equallyStrong).entries.reverse.map (·.2)) =
      (ofReports equallyStrong).bySignal := by
  have hsame (address : Address) : (ofReports equallyStrong.reverse).get? address =
      (ofReports equallyStrong).get? address := by
    have hreports : reportsOf equallyStrong.reverse address = reportsOf equallyStrong address := by
      by_cases h : Address.zero = address
      · subst h
        rfl
      · simp [reportsOf, equallyStrong, List.filter_cons, h]
    rw [get?_ofReports, get?_ofReports, hreports]
  obtain ⟨-, -, -, horder, hother⟩ := bySignal_canonical equallyStrong
  have hperm := List.reverse_perm (ofReports equallyStrong).entries
  exact ⟨hsame, hother _ hsame, hperm, horder _ hperm⟩

end DeviceTable

end BleHost
