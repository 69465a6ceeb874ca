import BleHost.Code.Basic

/-!
# What is told about an advertiser

The kind of its address, the kind of packet it was heard by, and the kinds of records that its
advertising data are made of.
-/

namespace BleHost

/-- The kinds of addresses that have a name. -/
inductive AddressType.Known
  | publicAddress | randomAddress
deriving DecidableEq, Repr

namespace AddressType.Known

/-- The number on the wire. -/
def raw : AddressType.Known → UInt8
  | publicAddress => 0x00
  | randomAddress => 0x01

/-- The name shown to people. -/
def name : AddressType.Known → String
  | publicAddress => "Public"
  | randomAddress => "Random"

/-- Every known value, in declared order. -/
def all : List AddressType.Known :=
  [.publicAddress, .randomAddress]

end AddressType.Known

instance AddressType.vocabulary : Vocabulary AddressType.Known UInt8 :=
  ⟨AddressType.Known.all, AddressType.Known.raw, AddressType.Known.name⟩

/-- The kind of a device address. -/
abbrev AddressType := Code AddressType.Known UInt8

/-- The kinds of advertising packets that have a name. -/
inductive ScanType.Known
  | connectableAdvertisement | nonConnectableAdvertisement | scanResponse
  | discoverableAdvertisement
deriving DecidableEq, Repr

namespace ScanType.Known

/-- The number on the wire. -/
def raw : ScanType.Known → UInt8
  | connectableAdvertisement => 0x00
  | nonConnectableAdvertisement => 0x02
  | scanResponse => 0x04
  | discoverableAdvertisement => 0x06

/-- The name shown to people. -/
def name : ScanType.Known → String
  | connectableAdvertisement => "ConnectableAdvertisement"
  | nonConnectableAdvertisement => "NonConnectableAdvertisement"
  | scanResponse => "ScanResponse"
  | discoverableAdvertisement => "DiscoverableAdvertisement"

/-- Every known value, in declared order. -/
def all : List ScanType.Known :=
  [.connectableAdvertisement, .nonConnectableAdvertisement, .scanResponse,
   .discoverableAdvertisement]

end ScanType.Known

instance ScanType.vocabulary : Vocabulary ScanType.Known UInt8 :=
  ⟨ScanType.Known.all, ScanType.Known.raw, ScanType.Known.name⟩

/-- The kind of packet an advertiser was heard by. -/
abbrev ScanType := Code ScanType.Known UInt8

/-- The kinds of advertising records that have a name. -/
inductive RecordType.Known
  | flags | uuid16Incomplete | uuid16Complete | uuid32Incomplete | uuid32Complete
  | uuid128Incomplete | uuid128Complete | nameShort | nameLong | txPower | deviceClass
  | simplePairingHash | simplePairingRandomizer | deviceId | securityManagerOobFlags
  | slaveConnectionIntervalRange | solicitation16 | solicitation128 | serviceData16
  | publicTargetAddress | randomTargetAddress | appearance | advertisingInterval
  | manufacturerSpecific
deriving DecidableEq, Repr

namespace RecordType.Known

/-- The number on the wire. -/
def raw : RecordType.Known → UInt8
  | flags => 0x01
  | uuid16Incomplete => 0x02
  | uuid16Complete => 0x03
  | uuid32Incomplete => 0x04
  | uuid32Complete => 0x05
  | uuid128Incomplete => 0x06
  | uuid128Complete => 0x07
  | nameShort => 0x08
  | nameLong => 0x09
  | txPower => 0x0A
  | deviceClass => 0x0D
  | simplePairingHash => 0x0E
  | simplePairingRandomizer => 0x0F
  | deviceId => 0x10
  | securityManagerOobFlags => 0x11
  | slaveConnectionIntervalRange => 0x12
  | solicitation16 => 0x14
  | solicitation128 => 0x15
  | serviceData16 => 0x16
  | publicTargetAddress => 0x17
  | randomTargetAddress => 0x18
  | appearance => 0x19
  | advertisingInterval => 0x1A
  | manufacturerSpecific => 0xFF

/-- The name shown to people. -/
def name : RecordType.Known → String
  | flags => "Flags"
  | uuid16Incomplete => "Uuid16Incomplete"
  | uuid16Complete => "Uuid16Complete"
  | uuid32Incomplete => "Uuid32Incomplete"
  | uuid32Complete => "Uuid32Complete"
  | uuid128Incomplete => "Uuid128Incomplete"
  | uuid128Complete => "Uuid128Complete"
  | nameShort => "NameShort"
  | nameLong => "NameLong"
  | txPower => "TxPower"
  | deviceClass => "DeviceClass"
  | simplePairingHash => "SimplePairingHash"
  | simplePairingRandomizer => "SimplePairingRandomizer"
  | deviceId => "DeviceId"
  | securityManagerOobFlags => "SecurityManagerOobFlags"
  | slaveConnectionIntervalRange => "SlaveConnectionIntervalRange"
  | solicitation16 => "Solicitation16"
  | solicitation128 => "Solicitation128"
  | serviceData16 => "ServiceData16"
  | publicTargetAddress => "PublicTargetAddress"
  | randomTargetAddress => "RandomTargetAddress"
  | appearance => "Appearance"
  | advertisingInterval => "AdvertisingInterval"
  | manufacturerSpecific => "ManufacturerSpecific"

/-- Every known value, in declared order. -/
def all : List RecordType.Known :=
  [.flags, .uuid16Incomplete, .uuid16Complete, .uuid32Incomplete, .uuid32Complete,
   .uuid128Incomplete, .uuid128Complete, .nameShort, .nameLong, .txPower, .deviceClass,
   .simplePairingHash, .simplePairingRandomizer, .deviceId, .securityManagerOobFlags,
   .slaveConnectionIntervalRange, .solicitation16, .solicitation128, .serviceData16,
   .publicTargetAddress, .randomTargetAddress, .appearance, .advertisingInterval,
   .manufacturerSpecific]

end RecordType.Known

instance RecordType.vocabulary : Vocabulary RecordType.Known UInt8 :=
  ⟨RecordType.Known.all, RecordType.Known.raw, RecordType.Known.name⟩

/-- The kind of an advertising record. -/
abbrev RecordType := Code RecordType.Known UInt8

end BleHost
