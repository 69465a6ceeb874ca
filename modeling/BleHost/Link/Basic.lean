import BleHost.Error

/-!
# The link to a module

What a session learns from the byte stream that joins it to its module.
-/

namespace BleHost

/-- What came of one attempt to read from a link. -/
inductive ReadOutcome
  /-- Bytes were read; none at all means that the stream has ended. -/
  | received (bytes : List UInt8)
  /-- Nothing came for as long as one attempt may take. -/
  | idle
  /-- The attempt failed. -/
  | failed (e : Error)
deriving DecidableEq, Repr

/-- The most bytes that one attempt to read asks for. -/
def readRoom : Nat := 256

end BleHost
