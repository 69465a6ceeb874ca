import BleHost.Error

/-!
# Serial ports

Which port a session is to use, and why one cannot be had.
-/

namespace BleHost

/-- The settings of a serial port. Eight data bits, no parity and one stop bit are fixed. -/
structure PortSettings where
  /-- Where the port is found. -/
  path : Option String := none
  baud : Nat := 115200
  /-- Whether the request and clear lines hold back the sender. -/
  flowControl : Bool := true
deriving DecidableEq, Repr

namespace PortSettings

/-- The error of a port that the system does not open. -/
def cannotOpen (path reason : String) : Error := .link s!"cannot open {path}: {reason}"

/-- The path of the port, if one is named and the system, asked with its settings, has no reason not
to open it. -/
def locate (p : PortSettings) (refusal? : String → Option String) : Except Error String :=
  match p.path with
  | none => .error (.invalidParameter "serial_port is required for build()")
  | some path =>
    match refusal? path with
    | some reason => .error (cannotOpen path reason)
    | none => .ok path

end PortSettings

end BleHost
