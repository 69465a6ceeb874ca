import BleHost.Advertising
import BleHost.Message.Basic

/-!
# What messages tell

The contents of the messages that the library itself looks into, under names of their own.
-/

namespace BleHost

/-- The firmware of a module. -/
structure Firmware where
  major : UInt16
  minor : UInt16
  patch : UInt16
  build : UInt16
  linkLayer : UInt16
  protocolVersion : UInt8
  hardware : UInt8
deriving DecidableEq, Repr

/-- The version of a firmware in the customary form. -/
def Firmware.version (f : Firmware) : String :=
  s!"{f.major}.{f.minor}.{f.patch} build {f.build}"

/-- Packets counted since the counters were last read, and the free memory buffers. -/
structure Counters where
  sent : UInt8
  resent : UInt8
  received : UInt8
  damaged : UInt8
  freeBuffers : UInt8
deriving DecidableEq, Repr

/-- One advertisement that was heard. -/
structure ScanReport where
  rssi : Int8
  scanType : ScanType
  sender : Address
  addressType : AddressType
  bond : UInt8
  data : List UInt8
deriving DecidableEq, Repr

/-- What the advertiser said. -/
def ScanReport.advertising (r : ScanReport) : AdvertisingData := .decode r.data

namespace Message

/-- The firmware told by an answer to a query or by a module that has started. -/
def firmware? : Message → Option Firmware
  | ⟨.systemGetInfo, (major, minor, patch, build, linkLayer, protocolVersion, hardware, ())⟩
  | ⟨.systemBoot, (major, minor, patch, build, linkLayer, protocolVersion, hardware, ())⟩ =>
    some { major, minor, patch, build, linkLayer, protocolVersion, hardware }
  | _ => none

/-- The module's own address. -/
def address? : Message → Option Address
  | ⟨.systemAddressGet, (address, ())⟩ => some address
  | _ => none

/-- The packet counters. -/
def counters? : Message → Option Counters
  | ⟨.systemGetCounters, (sent, resent, received, damaged, freeBuffers, ())⟩ =>
    some { sent, resent, received, damaged, freeBuffers }
  | _ => none

/-- The number of connections that the module supports. -/
def maxConnections? : Message → Option UInt8
  | ⟨.systemGetConnections, (count, ())⟩ => some count
  | _ => none

/-- The flags of a connection. -/
def connectionFlags? : Message → Option StatusFlags
  | ⟨.connectionStatus, (_, flags, _)⟩ => some flags
  | _ => none

/-- The advertisement that a scan reports. -/
def scanReport? : Message → Option ScanReport
  | ⟨.gapScanResponse, (rssi, scanType, sender, addressType, bond, data, ())⟩ =>
    some { rssi, scanType, sender, addressType, bond, data }
  | _ => none

end Message

end BleHost
