import BleHost.Message.View

/-!
# Devices heard during a scan

A table of advertisers, folded from the scan reports in the order in which they came. What a device
says in one report holds until a later report says otherwise.

Main statements: under every address there is at most one device, which is kept by `insert`, and
`get?_insert` says what a look-up finds after an insertion.
-/

namespace BleHost

/-- What is known about one advertiser. -/
structure Device where
  address : Address
  addressType : AddressType
  /-- The signal strength of the latest report, in dBm. -/
  rssi : Int8
  /-- The number of reports. -/
  seen : UInt32
  /-- The records of all reports together. -/
  advertising : AdvertisingData
deriving DecidableEq, Repr

namespace Device

/-- The device that a first report tells of. -/
def ofReport (r : ScanReport) : Device :=
  ⟨r.sender, r.addressType, r.rssi, 1, r.advertising⟩

/-- What is known after a further report. -/
def hear (d : Device) (r : ScanReport) : Device :=
  { d with
    addressType := r.addressType
    rssi := r.rssi
    seen := d.seen + 1
    advertising := d.advertising.merge r.advertising }

/-- The name the device goes by. -/
def name? (d : Device) : Option String := d.advertising.name?

/-- The stronger signal comes first, and of equal ones the lower address. -/
def le (a b : Device) : Bool :=
  if a.rssi = b.rssi then a.address.le b.address else b.rssi < a.rssi

/-- Devices, the strongest signal first. -/
def bySignal (devices : List Device) : List Device := devices.mergeSort le

end Device

namespace DeviceTable

/-- Put a device under an address, in place of the one that is there, or else behind all others. -/
def insertInto (address : Address) (device : Device) :
    List (Address × Device) → List (Address × Device)
  | [] => [(address, device)]
  | entry :: rest =>
    if entry.1 = address then (address, device) :: rest
    else entry :: insertInto address device rest

theorem keys_insertInto (address : Address) (device : Device) (entries : List (Address × Device)) :
    (insertInto address device entries).map (·.1) =
      if address ∈ entries.map (·.1) then entries.map (·.1)
      else entries.map (·.1) ++ [address] := by
  induction entries with
  | nil => rfl
  | cons entry rest ih =>
    simp only [insertInto]
    by_cases h : entry.1 = address
    · simp [h]
    · have hne : address ≠ entry.1 := fun heq => h heq.symm
      by_cases hmem : address ∈ rest.map (·.1)
      · simp only [if_neg h, List.map_cons, ih, List.mem_cons, hmem, or_true, if_true]
      · simp only [if_neg h, List.map_cons, ih, List.mem_cons, hmem, hne, or_false, if_false,
          List.cons_append]

theorem nodup_insertInto (address : Address) (device : Device)
    {entries : List (Address × Device)} (h : (entries.map (·.1)).Nodup) :
    ((insertInto address device entries).map (·.1)).Nodup := by
  rw [keys_insertInto]
  split
  · exact h
  · rename_i hmem
    refine List.nodup_append.2 ⟨h, by simp, fun a ha b hb => ?_⟩
    rw [List.mem_singleton.1 hb]
    rintro rfl
    exact hmem ha

end DeviceTable

/-- The devices heard so far, each under the address that its reports came from, in the order in
which they were first heard. -/
structure DeviceTable where
  entries : List (Address × Device)
  nodup : (entries.map (·.1)).Nodup
deriving DecidableEq, Repr

namespace DeviceTable

/-- The table before any device has been heard. -/
def empty : DeviceTable := ⟨[], List.nodup_nil⟩

/-- The device under an address. -/
def get? (t : DeviceTable) (address : Address) : Option Device :=
  (t.entries.find? (·.1 == address)).map (·.2)

/-- The number of devices. -/
def size (t : DeviceTable) : Nat := t.entries.length

/-- Whether no device has been heard. -/
def isEmpty (t : DeviceTable) : Bool := t.entries.isEmpty

/-- Put a device under an address, in place of the one that is there, if there is one. -/
def insert (t : DeviceTable) (address : Address) (device : Device) : DeviceTable :=
  ⟨insertInto address device t.entries, nodup_insertInto address device t.nodup⟩

/-- Take in a report: whether it is the first one of its sender, and the table with it. -/
def update (t : DeviceTable) (r : ScanReport) : Bool × DeviceTable :=
  match t.get? r.sender with
  | some device => (false, t.insert r.sender (device.hear r))
  | none => (true, t.insert r.sender (.ofReport r))

/-- The devices, the strongest signal first. -/
def bySignal (t : DeviceTable) : List Device := Device.bySignal (t.entries.map (·.2))

theorem get?_insert (t : DeviceTable) (address : Address) (device : Device) (other : Address) :
    (t.insert address device).get? other =
      if address = other then some device else t.get? other := by
  obtain ⟨entries, nodup⟩ := t
  simp only [get?, insert]
  clear nodup
  induction entries with
  | nil => by_cases h : address = other <;> simp [insertInto, h]
  | cons entry rest ih =>
    simp only [insertInto]
    by_cases h : entry.1 = address
    · by_cases hother : address = other <;> simp [h, hother]
    · rw [if_neg h]
      by_cases hother : entry.1 = other
      · have hne : address ≠ other := fun heq => h (hother.trans heq.symm)
        simp [hother, hne]
      · simpa [hother] using ih

end DeviceTable

end BleHost
