import BleHost.Frame.Assembler
import BleHost.Link.Basic

/-!
# The pump

The pump is the one party that uses the link. It puts the bytes it reads through the assembler and
counts failures in a row, reads and writes alike; when there are more of them than it has been
allowed, or when the stream ends, it gives up.
-/

namespace BleHost

/-- What the pump does after an attempt to write or to read. -/
inductive Verdict
  | goOn
  /-- It rests for a while before it does anything else. -/
  | rest
  /-- It gives up for this cause. -/
  | giveUp (cause : String)
deriving DecidableEq, Repr

/-- The bytes in hand and the number of failures in a row. -/
structure Pump where
  assembler : Assembler := {}
  failures : Nat := 0
deriving DecidableEq, Repr

namespace Pump

/-- How long the pump rests after a failed read, in milliseconds. -/
def restTime : Nat := 10

/-- Count a failure, which is one too many if it exceeds the number allowed. -/
def fail (p : Pump) (allowed : Nat) (cause : String) (otherwise : Verdict) : Pump × Verdict :=
  ({ p with failures := p.failures + 1 },
    if allowed < p.failures + 1 then .giveUp cause else otherwise)

/-- After an attempt to write. -/
def wrote (p : Pump) (allowed : Nat) : Except Error Unit → Pump × Verdict
  | .ok () => ({ p with failures := 0 }, .goOn)
  | .error e => p.fail allowed s!"write failed: {e.message}" .goOn

/-- After an attempt to read, with the frames that it completed. -/
def read (p : Pump) (allowed : Nat) : ReadOutcome → Pump × List Frame × Verdict
  | .idle => (p, [], .goOn)
  | .received [] => (p, [], .giveUp "end of stream")
  | .received bytes =>
    let (assembler, frames) := p.assembler.feed bytes
    ({ assembler, failures := 0 }, frames, .goOn)
  | .failed e =>
    if e = .timeout then (p, [], .goOn)
    else
      let (p, verdict) := p.fail allowed s!"read failed: {e.message}" .rest
      (p, [], verdict)

end Pump

end BleHost
