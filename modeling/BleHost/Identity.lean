/-!
# Packet identities

A packet is told apart by the class and the command it belongs to and by whether it is an event
that the module sent of its own accord. A command and the response to it share one identity.
-/

namespace BleHost

/-- What a packet is, as far as its header tells. -/
structure Identity where
  classId : UInt8
  commandId : UInt8
  isEvent : Bool
deriving DecidableEq, Repr, Inhabited

namespace Identity

/-- The identity of a command and of the response to it. -/
def response (classId commandId : UInt8) : Identity := ⟨classId, commandId, false⟩

/-- The identity of an event. -/
def event (classId commandId : UInt8) : Identity := ⟨classId, commandId, true⟩

/-- Identities are ordered by class, then by command, then responses before events. -/
def le (a b : Identity) : Bool :=
  if a.classId ≠ b.classId then a.classId < b.classId
  else if a.commandId ≠ b.commandId then a.commandId < b.commandId
  else !a.isEvent || b.isEvent

/-- An identity spelled out field by field. -/
def describe (id : Identity) : String :=
  s!"PacketId \x7b class_id: {id.classId}, command_id: {id.commandId}, is_event: {id.isEvent} \x7d"

end Identity

end BleHost
