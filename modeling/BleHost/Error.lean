import BleHost.Identity
import BleHost.Text.Hex

/-!
# What can go wrong

The causes for which talking to a module fails, each with the one text it is reported by.
-/

namespace BleHost

/-- A cause of failure. -/
inductive Error
  /-- The link failed once. -/
  | link (reason : String)
  /-- The link failed for good, and the session with it. -/
  | linkLost (cause : String)
  /-- Something arrived that the protocol does not allow. -/
  | protocol (reason : String)
  /-- No decoder is known for a packet. -/
  | unknownPacket (id : Identity)
  /-- A payload ended before the field that was read from it. -/
  | truncated (needed available : Nat)
  /-- A value that cannot be put on the wire, or a setting that makes no sense. -/
  | invalidParameter (reason : String)
  /-- No answer came in time. -/
  | timeout
  /-- The session is over. -/
  | dead
  /-- The link is closed. -/
  | notConnected
  /-- The link was cut. -/
  | connectionLost
  /-- The device below the link reported a failure. -/
  | device (reason : String)
deriving DecidableEq, Repr, Inhabited

namespace Error

/-- The text an error is reported by. -/
def message : Error → String
  | link reason => s!"transport error: {reason}"
  | linkLost cause => s!"transport failed: {cause}"
  | protocol reason => s!"protocol error: {reason}"
  | unknownPacket id =>
    s!"unknown packet class=0x{Text.hexByte id.classId} command=0x{Text.hexByte id.commandId} "
      ++ s!"event={id.isEvent}"
  | truncated needed available =>
    s!"truncated payload: needed {needed} bytes, {available} available"
  | invalidParameter reason => s!"invalid parameter: {reason}"
  | timeout => "timeout waiting for response"
  | dead => "handler is dead"
  | notConnected => "not connected"
  | connectionLost => "connection lost"
  | device reason => s!"I/O error: {reason}"

/-- Whether the error concerns one received frame only, which is then dropped. -/
def isFrameLocal : Error → Bool
  | protocol _ | unknownPacket _ | truncated _ _ => true
  | _ => false

end Error

end BleHost
