import BleHost.Wire.Type

/-!
# Writing a payload

A writer takes values one behind the other. A value that cannot be written is an error and leaves
the writer as it was, so that writing can go on after it.
-/

namespace BleHost

/-- The bytes that have been written so far. -/
structure Writer where
  written : List UInt8 := []
deriving DecidableEq, Repr

namespace Writer

/-- The number of bytes written so far. -/
def length (w : Writer) : Nat := w.written.length

/-- Write a value behind what has been written. -/
def put (w : Writer) (value : WireValue) : Except Error Unit × Writer :=
  match value.1.encode value.2 with
  | .ok bytes => (.ok (), ⟨w.written ++ bytes⟩)
  | .error e => (.error e, w)

/-- Write several values, up to the first that cannot be written, which decides. -/
def putAll (w : Writer) : List WireValue → Except Error Writer
  | [] => .ok w
  | value :: values =>
    match w.put value with
    | (.ok (), w) => w.putAll values
    | (.error e, _) => .error e

end Writer

end BleHost
