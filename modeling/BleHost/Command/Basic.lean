import BleHost.Error
import BleHost.Frame.Basic

/-!
# Commands

A command is an outgoing packet. It is never an event, and its payload fits a frame.
-/

namespace BleHost

/-- An outgoing packet. -/
structure Command where
  classId : UInt8
  commandId : UInt8
  payload : List UInt8
deriving DecidableEq, Repr

namespace Command

/-- A command with a payload that is already encoded, if a frame can hold it. -/
def ofPayload (classId commandId : UInt8) (payload : List UInt8) : Except Error Command :=
  if payload.length ≤ Frame.maxPayload then .ok ⟨classId, commandId, payload⟩
  else .error (.invalidParameter
    (s!"command 0x{Text.hexByte classId}/0x{Text.hexByte commandId} payload of "
      ++ s!"{payload.length} bytes exceeds {Frame.maxPayload}"))

/-- A command without parameters. -/
def bare (classId commandId : UInt8) : Command := ⟨classId, commandId, []⟩

/-- The identity of the response to a command. -/
def responseId (c : Command) : Identity := .response c.classId c.commandId

/-- The frame that carries a command. -/
def frame (c : Command) : Frame := ⟨c.responseId, c.payload⟩

/-- The bytes of a command on the wire. -/
def bytes (c : Command) : List UInt8 := c.frame.bytes

end Command

end BleHost
