import BleHost.Message.Basic

/-!
# Broadcast streams

Every receiver of a stream sees every message that is published after the receiver was made, in
order, at its own pace. The stream keeps only the newest messages. A receiver that has fallen
behind is told how many it has missed and goes on with the oldest one that is still kept. When the
stream is closed, receivers first get what is kept for them.
-/

namespace BleHost

/-- What a receiver gets when it asks. -/
inductive Received
  | message (m : Message)
  /-- This many messages are gone before the receiver came to them. -/
  | lagged (missed : Nat)
  /-- There is nothing yet. -/
  | empty
  /-- There is nothing any more. -/
  | closed
deriving DecidableEq

/-- A stream: how many messages it keeps, all that was published so far, and whether it is closed. A
receiver is known by how many messages it is done with. -/
structure Broadcast where
  kept : Nat
  published : List Message := []
  closed : Bool := false
deriving DecidableEq

namespace Broadcast

/-- A stream that keeps at least `capacity` messages: the next power of two, and at least one. -/
def ofCapacity (capacity : Nat) : Broadcast := { kept := (max capacity 1).nextPowerOfTwo }

/-- Publish a message, of which a closed stream takes no notice. -/
def publish (b : Broadcast) (m : Message) : Broadcast :=
  if b.closed then b else { b with published := b.published ++ [m] }

/-- End the stream. -/
def close (b : Broadcast) : Broadcast := { b with closed := true }

/-- Where a new receiver begins. -/
def tail (b : Broadcast) : Nat := b.published.length

/-- What the receiver that is done with `position` messages gets, and with how many it is done
then. -/
def receive (b : Broadcast) (position : Nat) : Received × Nat :=
  if position + b.kept < b.tail then
    (.lagged (b.tail - b.kept - position), b.tail - b.kept)
  else match b.published[position]? with
    | some m => (.message m, position + 1)
    | none => (if b.closed then .closed else .empty, position)

end Broadcast

end BleHost
