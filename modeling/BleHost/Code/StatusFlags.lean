/-!
# Connection status flags

The flags of a connection, one bit each. Bits without a name are kept and never shown.
-/

namespace BleHost

/-- The flags that are set, as one byte. -/
structure StatusFlags where
  bits : UInt8
deriving DecidableEq, Repr

namespace StatusFlags

/-- The connection exists. -/
def connected : StatusFlags := ⟨0x01⟩
/-- The connection is encrypted. -/
def encrypted : StatusFlags := ⟨0x02⟩
/-- The connection is new. -/
def completed : StatusFlags := ⟨0x04⟩
/-- The parameters of the connection have changed. -/
def parametersChange : StatusFlags := ⟨0x08⟩

/-- The flags of both. -/
def union (a b : StatusFlags) : StatusFlags := ⟨a.bits ||| b.bits⟩

/-- Whether all flags of `b` are set in `a`. -/
def contains (a b : StatusFlags) : Bool := a.bits &&& b.bits == b.bits

/-- Whether no flag is set. -/
def isEmpty (a : StatusFlags) : Bool := a.bits == 0

/-- The named flags, lowest bit first. -/
def named : List (StatusFlags × String) :=
  [(connected, "CONNECTED"), (encrypted, "ENCRYPTED"), (completed, "COMPLETED"),
    (parametersChange, "PARAMETERS_CHANGE")]

/-- The names of the flags that are set, with bars between them. -/
def text (a : StatusFlags) : String :=
  match (named.filter fun flag => a.contains flag.1).map (·.2) with
  | [] => "NONE"
  | names => "|".intercalate names

end StatusFlags

end BleHost
