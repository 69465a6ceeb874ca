import BleHost.Devices
import BleHost.Text.Column
import BleHost.Text.Elapsed

/-!
# What the console prints

The texts of the console, line by line.
-/

namespace BleHost.Console

/-- Lines of text, each ended. -/
def lines (ls : List String) : String := String.join (ls.map (· ++ "\n"))

/-- The module has answered. -/
def answered (ms : Nat) : String := lines ["Module answered in " ++ Text.elapsed ms]

/-- What module it is. -/
def moduleInformation (f : Firmware) (address : Address) : String :=
  lines
    ["Module Information",
      s!"  Firmware:       {f.version}",
      s!"  Link layer:     {f.linkLayer}",
      s!"  Protocol:       {f.protocolVersion}",
      s!"  Hardware:       {f.hardware}",
      s!"  Address:        {address.text}"]

/-- The packet counters. -/
def packetCounters (c : Counters) : String :=
  lines
    ["Packet Counters",
      s!"  TX ok:          {c.sent}",
      s!"  TX retry:       {c.resent}",
      s!"  RX ok:          {c.received}",
      s!"  RX fail:        {c.damaged}",
      s!"  Free buffers:   {c.freeBuffers}"]

/-- The number of connections. -/
def connectionLimit (count : UInt8) : String := lines [s!"Max connections: {count}"]

/-- A scan has begun. -/
def scanBegun (seconds : Nat) (passive : Bool) : String :=
  lines [s!"Scanning for {seconds}s (" ++ (if passive then "passive" else "active") ++ ")...", ""]

/-- A device has been heard for the first time. -/
def newDevice (r : ScanReport) : String :=
  lines ["  new device " ++ r.sender.text ++ " " ++ Text.padLeft 4 (toString r.rssi.toInt)
    ++ " dBm " ++ r.advertising.name?.getD ""]

/-- A row of the table of devices. -/
def row (address type rssi seen name : String) : String :=
  "  " ++ "  ".intercalate
    [Text.padRight 17 address, Text.padRight 7 type, Text.padLeft 4 rssi, Text.padLeft 5 seen, name]

/-- The table of the devices that were heard. -/
def deviceTable (t : DeviceTable) : String :=
  lines (["", s!"{t.size} device(s) found", row "Address" "Type" "RSSI" "Seen" "Name"] ++
    t.bySignal.map fun d =>
      row d.address.text d.addressType.name (toString d.rssi.toInt) (toString d.seen)
        (d.name?.getD ""))

end BleHost.Console
