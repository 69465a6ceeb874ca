import BleHost.Frame.Basic

/-!
# Finding frames in a byte stream

Bytes arrive one at a time and in chunks of any size. The assembler collects the bytes of one frame
after another. The only signs of noise are a first header byte with a bit set that must be clear and
a length byte above the longest payload; either one discards what was collected together with
itself, and the next byte is taken for the start of a frame.
-/

namespace BleHost

/-- The bytes collected for the frame in progress, the length that frame will have once its length
byte is known, and how often noise has been discarded. -/
structure Assembler where
  collected : List UInt8 := []
  expected : Nat := 0
  resyncs : Nat := 0
deriving DecidableEq, Repr

namespace Assembler

/-- How many bytes are collected for the frame in progress. -/
def pending (a : Assembler) : Nat := a.collected.length

/-- Forget the frame in progress. -/
def reset (a : Assembler) : Assembler := { a with collected := [], expected := 0 }

/-- Forget the frame in progress because of noise. -/
def discard (a : Assembler) : Assembler := { a.reset with resyncs := a.resyncs + 1 }

/-- Collect a byte, which may complete the frame. -/
def collect (a : Assembler) (byte : UInt8) : Assembler × Option Frame :=
  let collected := a.collected ++ [byte]
  if Frame.headerLength ≤ collected.length ∧ collected.length = a.expected then
    (a.reset, Frame.ofBytes? collected)
  else ({ a with collected }, none)

/-- Take the next byte of the stream, to which a full buffer is no obstacle. -/
def place (a : Assembler) (byte : UInt8) : Assembler × Option Frame :=
  match a.pending with
  | 0 => if Frame.isKindByte byte then a.collect byte else (a.discard, none)
  | 1 =>
    if Frame.maxPayload < byte.toNat then (a.discard, none)
    else { a with expected := Frame.headerLength + byte.toNat }.collect byte
  | _ => a.collect byte

/-- Take the next byte of the stream. -/
def push (a : Assembler) (byte : UInt8) : Assembler × Option Frame :=
  if Frame.maxLength ≤ a.pending then a.discard.place byte else a.place byte

/-- Take the next bytes of the stream, and give the frames that they complete. -/
def feed (a : Assembler) : List UInt8 → Assembler × List Frame
  | [] => (a, [])
  | byte :: bytes =>
    let (a, frame?) := a.push byte
    let (a, frames) := a.feed bytes
    (a, frame?.toList ++ frames)

end Assembler

end BleHost
