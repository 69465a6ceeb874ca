import BleHost.Identity
import BleHost.Wire.Type

/-!
# The catalogue of packet kinds

The packets that a module is known to send, each with its identity and with its fields in the order
in which they lie on the wire. Everything the library knows about a kind of packet is in this table.
-/

namespace BleHost

/-- A named field of a packet. -/
structure Field where
  name : String
  type : WireType
deriving DecidableEq, Repr

/-- A kind of packet that a module sends. -/
inductive MessageKind
  | systemHello | systemAddressGet | systemGetCounters | systemGetConnections | systemGetInfo
  | systemBoot | connectionDisconnect | connectionGetRssi | connectionGetStatus
  | connectionStatus | connectionVersionInd | connectionDisconnected | attClientReadByGroupType
  | attClientReadByHandle | attClientAttributeWrite | attClientProcedureCompleted
  | attClientGroupFound | attClientFindInformationFound | attClientAttributeValue | gapSetMode
  | gapDiscover | gapConnectDirect | gapEndProcedure | gapSetScanParameters | gapScanResponse
deriving DecidableEq, Repr

namespace MessageKind

/-- Every kind of packet, in the order of this table. -/
def all : List MessageKind :=
  [.systemHello, .systemAddressGet, .systemGetCounters, .systemGetConnections, .systemGetInfo,
   .systemBoot, .connectionDisconnect, .connectionGetRssi, .connectionGetStatus,
   .connectionStatus, .connectionVersionInd, .connectionDisconnected, .attClientReadByGroupType,
   .attClientReadByHandle, .attClientAttributeWrite, .attClientProcedureCompleted,
   .attClientGroupFound, .attClientFindInformationFound, .attClientAttributeValue, .gapSetMode,
   .gapDiscover, .gapConnectDirect, .gapEndProcedure, .gapSetScanParameters, .gapScanResponse]

/-- The name shown to people. -/
def name : MessageKind → String
  | systemHello => "SystemHello"
  | systemAddressGet => "SystemAddressGet"
  | systemGetCounters => "SystemGetCounters"
  | systemGetConnections => "SystemGetConnections"
  | systemGetInfo => "SystemGetInfo"
  | systemBoot => "SystemBoot"
  | connectionDisconnect => "ConnectionDisconnect"
  | connectionGetRssi => "ConnectionGetRssi"
  | connectionGetStatus => "ConnectionGetStatus"
  | connectionStatus => "ConnectionStatus"
  | connectionVersionInd => "ConnectionVersionInd"
  | connectionDisconnected => "ConnectionDisconnected"
  | attClientReadByGroupType => "AttClientReadByGroupType"
  | attClientReadByHandle => "AttClientReadByHandle"
  | attClientAttributeWrite => "AttClientAttributeWrite"
  | attClientProcedureCompleted => "AttClientProcedureCompleted"
  | attClientGroupFound => "AttClientGroupFound"
  | attClientFindInformationFound => "AttClientFindInformationFound"
  | attClientAttributeValue => "AttClientAttributeValue"
  | gapSetMode => "GapSetMode"
  | gapDiscover => "GapDiscover"
  | gapConnectDirect => "GapConnectDirect"
  | gapEndProcedure => "GapEndProcedure"
  | gapSetScanParameters => "GapSetScanParameters"
  | gapScanResponse => "GapScanResponse"

/-- The identity under which packets of this kind are sent. -/
def id : MessageKind → Identity
  | systemHello => .response 0 1
  | systemAddressGet => .response 0 2
  | systemGetCounters => .response 0 5
  | systemGetConnections => .response 0 6
  | systemGetInfo => .response 0 8
  | systemBoot => .event 0 0
  | connectionDisconnect => .response 3 0
  | connectionGetRssi => .response 3 1
  | connectionGetStatus => .response 3 7
  | connectionStatus => .event 3 0
  | connectionVersionInd => .event 3 1
  | connectionDisconnected => .event 3 4
  | attClientReadByGroupType => .response 4 1
  | attClientReadByHandle => .response 4 4
  | attClientAttributeWrite => .response 4 5
  | attClientProcedureCompleted => .event 4 1
  | attClientGroupFound => .event 4 2
  | attClientFindInformationFound => .event 4 4
  | attClientAttributeValue => .event 4 5
  | gapSetMode => .response 6 1
  | gapDiscover => .response 6 2
  | gapConnectDirect => .response 6 3
  | gapEndProcedure => .response 6 4
  | gapSetScanParameters => .response 6 7
  | gapScanResponse => .event 6 0

/-- The fields of a packet of this kind, in wire order. -/
abbrev layout : MessageKind → List Field
  | systemHello => []
  | systemAddressGet => [⟨"address", .address⟩]
  | systemGetCounters =>
    [⟨"txok", .u8⟩, ⟨"txretry", .u8⟩, ⟨"rxok", .u8⟩, ⟨"rxfail", .u8⟩, ⟨"mbuf", .u8⟩]
  | systemGetConnections => [⟨"maxconn", .u8⟩]
  | systemGetInfo =>
    [⟨"major", .u16⟩, ⟨"minor", .u16⟩, ⟨"patch", .u16⟩, ⟨"build", .u16⟩, ⟨"ll_version", .u16⟩,
     ⟨"protocol_version", .u8⟩, ⟨"hw", .u8⟩]
  | systemBoot =>
    [⟨"major", .u16⟩, ⟨"minor", .u16⟩, ⟨"patch", .u16⟩, ⟨"build", .u16⟩, ⟨"ll_version", .u16⟩,
     ⟨"protocol_version", .u8⟩, ⟨"hw", .u8⟩]
  | connectionDisconnect => [⟨"connection", .u8⟩, ⟨"result", .result⟩]
  | connectionGetRssi => [⟨"connection", .u8⟩, ⟨"rssi", .i8⟩]
  | connectionGetStatus => [⟨"connection", .u8⟩]
  | connectionStatus =>
    [⟨"connection", .u8⟩, ⟨"flags", .statusFlags⟩, ⟨"address", .address⟩,
     ⟨"address_type", .addressType⟩, ⟨"conn_interval", .u16⟩, ⟨"timeout", .u16⟩,
     ⟨"latency", .u16⟩, ⟨"bonding", .u8⟩]
  | connectionVersionInd =>
    [⟨"connection", .u8⟩, ⟨"vers_nr", .u8⟩, ⟨"comp_id", .u16⟩, ⟨"sub_vers_nr", .u16⟩]
  | connectionDisconnected => [⟨"connection", .u8⟩, ⟨"reason", .result⟩]
  | attClientReadByGroupType => [⟨"connection", .u8⟩, ⟨"result", .result⟩]
  | attClientReadByHandle => [⟨"connection", .u8⟩, ⟨"result", .result⟩]
  | attClientAttributeWrite => [⟨"connection", .u8⟩, ⟨"result", .result⟩]
  | attClientProcedureCompleted => [⟨"connection", .u8⟩, ⟨"result", .result⟩, ⟨"chrhandle", .u16⟩]
  | attClientGroupFound => [⟨"connection", .u8⟩, ⟨"start", .u16⟩, ⟨"end", .u16⟩, ⟨"uuid", .bytes⟩]
  | attClientFindInformationFound => [⟨"connection", .u8⟩, ⟨"chrhandle", .u16⟩, ⟨"uuid", .bytes⟩]
  | attClientAttributeValue =>
    [⟨"connection", .u8⟩, ⟨"atthandle", .u16⟩, ⟨"value_type", .u8⟩, ⟨"value", .bytes⟩]
  | gapSetMode => [⟨"result", .result⟩]
  | gapDiscover => [⟨"result", .result⟩]
  | gapConnectDirect => [⟨"result", .result⟩, ⟨"connection_handle", .u8⟩]
  | gapEndProcedure => [⟨"result", .result⟩]
  | gapSetScanParameters => [⟨"result", .result⟩]
  | gapScanResponse =>
    [⟨"rssi", .i8⟩, ⟨"packet_type", .scanType⟩, ⟨"sender", .address⟩,
     ⟨"address_type", .addressType⟩, ⟨"bond", .u8⟩, ⟨"data", .bytes⟩]

end MessageKind

end BleHost
