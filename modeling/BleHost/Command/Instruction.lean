import BleHost.Code.Mode
import BleHost.Command.Basic
import BleHost.Wire.Writer

/-!
# The instructions a module understands

Each instruction has a class, a number within the class, and arguments that are written one behind
the other into the payload of its command.
-/

namespace BleHost

/-- Timing asked for with a new connection: intervals in units of 1.25 ms, the supervision timeout
in units of 10 ms, the latency in intervals. -/
structure ConnectionTiming where
  intervalMin : UInt16 := 60
  intervalMax : UInt16 := 100
  timeout : UInt16 := 100
  latency : UInt16 := 0
deriving DecidableEq, Repr

/-- An instruction with its arguments. -/
inductive Instruction
  /-- Restart the module, into its loader for new firmware if asked to. -/
  | systemReset (bootInDfu : Bool)
  | systemHello
  | systemAddressGet
  | systemGetCounters
  | systemGetConnections
  | systemGetInfo
  | connectionDisconnect (connection : UInt8)
  | connectionGetRssi (connection : UInt8)
  | connectionGetStatus (connection : UInt8)
  /-- Find the attributes of a group type between two handles. -/
  | readByGroupType (connection : UInt8) (first last : UInt16) (uuid : List UInt8)
  | readByHandle (connection : UInt8) (handle : UInt16)
  | attributeWrite (connection : UInt8) (handle : UInt16) (data : List UInt8)
  | setMode (discoverable : DiscoverableMode) (connectable : ConnectableMode)
  | discover (filter : ScanFilter)
  | connectDirect (address : Address) (addressType : AddressType) (timing : ConnectionTiming)
  | endProcedure
  /-- Interval and window are in units of 0.625 ms; an active scan asks advertisers for more. -/
  | setScanParameters (interval window : UInt16) (active : Bool)
deriving DecidableEq, Repr

namespace Instruction

/-- The class of an instruction: 0 for the system, 3 for connections, 4 for the attributes of a
peer, 6 for the access profile. -/
def classId : Instruction → UInt8
  | systemReset _ | systemHello | systemAddressGet | systemGetCounters | systemGetConnections
  | systemGetInfo => 0
  | connectionDisconnect _ | connectionGetRssi _ | connectionGetStatus _ => 3
  | readByGroupType .. | readByHandle .. | attributeWrite .. => 4
  | setMode .. | discover _ | connectDirect .. | endProcedure | setScanParameters .. => 6

/-- The number of an instruction within its class. -/
def commandId : Instruction → UInt8
  | systemReset _ => 0
  | systemHello => 1
  | systemAddressGet => 2
  | systemGetCounters => 5
  | systemGetConnections => 6
  | systemGetInfo => 8
  | connectionDisconnect _ => 0
  | connectionGetRssi _ => 1
  | connectionGetStatus _ => 7
  | readByGroupType .. => 1
  | readByHandle .. => 4
  | attributeWrite .. => 5
  | setMode .. => 1
  | discover _ => 2
  | connectDirect .. => 3
  | endProcedure => 4
  | setScanParameters .. => 7

/-- The arguments of an instruction in the order in which they are written. -/
def arguments : Instruction → List WireValue
  | systemReset bootInDfu => [⟨.bool, bootInDfu⟩]
  | systemHello | systemAddressGet | systemGetCounters | systemGetConnections | systemGetInfo
  | endProcedure => []
  | connectionDisconnect connection | connectionGetRssi connection
  | connectionGetStatus connection => [⟨.u8, connection⟩]
  | readByGroupType connection first last uuid =>
    [⟨.u8, connection⟩, ⟨.u16, first⟩, ⟨.u16, last⟩, ⟨.bytes, uuid⟩]
  | readByHandle connection handle => [⟨.u8, connection⟩, ⟨.u16, handle⟩]
  | attributeWrite connection handle data =>
    [⟨.u8, connection⟩, ⟨.u16, handle⟩, ⟨.bytes, data⟩]
  | setMode discoverable connectable => [⟨.u8, discoverable.raw⟩, ⟨.u8, connectable.raw⟩]
  | discover filter => [⟨.u8, filter.raw⟩]
  | connectDirect address addressType timing =>
    [⟨.address, address⟩, ⟨.u8, addressType.raw⟩, ⟨.u16, timing.intervalMin⟩,
      ⟨.u16, timing.intervalMax⟩, ⟨.u16, timing.timeout⟩, ⟨.u16, timing.latency⟩]
  | setScanParameters interval window active =>
    [⟨.u16, interval⟩, ⟨.u16, window⟩, ⟨.bool, active⟩]

/-- Whether an instruction takes a byte array, whose length is up to the caller. -/
def takesBytes : Instruction → Bool
  | readByGroupType .. | attributeWrite .. => true
  | _ => false

/-- The payload of an instruction. -/
def payload (i : Instruction) : Except Error (List UInt8) :=
  (Writer.putAll {} i.arguments).map (·.written)

/-- The command of an instruction without byte arrays. Its size is not checked, for such a payload
always fits a frame. -/
def fixed (i : Instruction) : Command :=
  ⟨i.classId, i.commandId, i.payload.toOption.getD []⟩

/-- The command that carries an instruction. It fails only when a byte array among the arguments is
too long. -/
def command (i : Instruction) : Except Error Command :=
  if i.takesBytes then i.payload.bind (Command.ofPayload i.classId i.commandId)
  else .ok i.fixed

end Instruction

end BleHost
