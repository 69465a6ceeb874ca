import BleHost.Code.Basic

/-!
# Modes of the access profile

Who may find the module, who may connect to it, and which advertisers it reports while it scans.
-/

namespace BleHost

/-- The discoverable modes that have a name. -/
inductive DiscoverableMode.Known
  | nonDiscoverable | limitedDiscoverable | generalDiscoverable | broadcast | userData
  | enhancedBroadcasting
deriving DecidableEq, Repr

namespace DiscoverableMode.Known

/-- The number on the wire. -/
def raw : DiscoverableMode.Known → UInt8
  | nonDiscoverable => 0x00
  | limitedDiscoverable => 0x01
  | generalDiscoverable => 0x02
  | broadcast => 0x03
  | userData => 0x04
  | enhancedBroadcasting => 0x80

/-- The name shown to people. -/
def name : DiscoverableMode.Known → String
  | nonDiscoverable => "NonDiscoverable"
  | limitedDiscoverable => "LimitedDiscoverable"
  | generalDiscoverable => "GeneralDiscoverable"
  | broadcast => "Broadcast"
  | userData => "UserData"
  | enhancedBroadcasting => "EnhancedBroadcasting"

/-- Every known value, in declared order. -/
def all : List DiscoverableMode.Known :=
  [.nonDiscoverable, .limitedDiscoverable, .generalDiscoverable, .broadcast, .userData,
   .enhancedBroadcasting]

end DiscoverableMode.Known

instance DiscoverableMode.vocabulary : Vocabulary DiscoverableMode.Known UInt8 :=
  ⟨DiscoverableMode.Known.all, DiscoverableMode.Known.raw, DiscoverableMode.Known.name⟩

/-- Who may find the module. -/
abbrev DiscoverableMode := Code DiscoverableMode.Known UInt8

/-- The connectable modes that have a name. -/
inductive ConnectableMode.Known
  | nonConnectable | directedConnectable | undirectedConnectable | scannableNonConnectable
deriving DecidableEq, Repr

namespace ConnectableMode.Known

/-- The number on the wire. -/
def raw : ConnectableMode.Known → UInt8
  | nonConnectable => 0x00
  | directedConnectable => 0x01
  | undirectedConnectable => 0x02
  | scannableNonConnectable => 0x03

/-- The name shown to people. -/
def name : ConnectableMode.Known → String
  | nonConnectable => "NonConnectable"
  | directedConnectable => "DirectedConnectable"
  | undirectedConnectable => "UndirectedConnectable"
  | scannableNonConnectable => "ScannableNonConnectable"

/-- Every known value, in declared order. -/
def all : List ConnectableMode.Known :=
  [.nonConnectable, .directedConnectable, .undirectedConnectable, .scannableNonConnectable]

end ConnectableMode.Known

instance ConnectableMode.vocabulary : Vocabulary ConnectableMode.Known UInt8 :=
  ⟨ConnectableMode.Known.all, ConnectableMode.Known.raw, ConnectableMode.Known.name⟩

/-- Who may connect to the module. -/
abbrev ConnectableMode := Code ConnectableMode.Known UInt8

/-- The scan filters that have a name: devices in limited mode, in limited or general mode, or
every advertiser. -/
inductive ScanFilter.Known
  | limited | generic | observation
deriving DecidableEq, Repr

namespace ScanFilter.Known

/-- The number on the wire. -/
def raw : ScanFilter.Known → UInt8
  | limited => 0x00
  | generic => 0x01
  | observation => 0x02

/-- The name shown to people. -/
def name : ScanFilter.Known → String
  | limited => "Limited"
  | generic => "Generic"
  | observation => "Observation"

/-- Every known value, in declared order. -/
def all : List ScanFilter.Known :=
  [.limited, .generic, .observation]

end ScanFilter.Known

instance ScanFilter.vocabulary : Vocabulary ScanFilter.Known UInt8 :=
  ⟨ScanFilter.Known.all, ScanFilter.Known.raw, ScanFilter.Known.name⟩

/-- Which advertisers a scan reports. -/
abbrev ScanFilter := Code ScanFilter.Known UInt8

end BleHost
