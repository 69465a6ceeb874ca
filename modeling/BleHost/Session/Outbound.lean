/-!
# The outbound queue

Frames that wait to be written, at most as many as the queue has slots. Callers that find it full
are served in the order in which they came: a slot that becomes free is set aside for the first of
them, who takes it when he gets to run. A closed queue takes nothing, not even from a caller for
whom a slot has been set aside.
-/

namespace BleHost

/-- A frame in the queue, with the number by which its fate is reported. -/
structure Outgoing where
  ticket : Nat
  bytes : List UInt8
deriving DecidableEq, Repr

/-- What becomes of a frame that somebody wants to queue. -/
inductive Admission
  /-- It is in the queue. -/
  | queued (ticket : Nat)
  /-- There is no slot for it yet. -/
  | blocked
  /-- The queue is closed. -/
  | refused
deriving DecidableEq, Repr

/-- The queue: the frames in it, the callers with a slot set aside, and those still without one. -/
structure Outbound where
  capacity : Nat
  queued : List Outgoing := []
  granted : List Nat := []
  blocked : List Nat := []
  lastTicket : Nat := 0
  closed : Bool := false
deriving DecidableEq, Repr

namespace Outbound

/-- A queue with the given number of slots, and at least one. -/
def ofCapacity (capacity : Nat) : Outbound := { capacity := max capacity 1 }

/-- Whether a slot is free. -/
def hasRoom (q : Outbound) : Bool := q.queued.length + q.granted.length < q.capacity

/-- Put a frame behind the others, with the next number. -/
def push (q : Outbound) (bytes : List UInt8) : Outbound :=
  { q with lastTicket := q.lastTicket + 1, queued := q.queued ++ [⟨q.lastTicket + 1, bytes⟩] }

/-- A caller wants to queue a frame. -/
def offer (q : Outbound) (caller : Nat) (bytes : List UInt8) : Admission × Outbound :=
  if q.closed then (.refused, q)
  else if q.hasRoom then (.queued (q.lastTicket + 1), q.push bytes)
  else (.blocked, { q with blocked := q.blocked ++ [caller] })

/-- A caller that was blocked tries again. -/
def retry (q : Outbound) (caller : Nat) (bytes : List UInt8) : Admission × Outbound :=
  if q.closed then (.refused, q)
  else if q.granted.contains caller then
    (.queued (q.lastTicket + 1), { q with granted := q.granted.erase caller }.push bytes)
  else (.blocked, q)

/-- Set a free slot aside for the first caller without one, and name him. -/
def grant (q : Outbound) : Option Nat × Outbound :=
  match q.blocked with
  | caller :: blocked =>
    if q.hasRoom then (some caller, { q with granted := q.granted ++ [caller], blocked })
    else (none, q)
  | [] => (none, q)

/-- Take out the first frame; its slot goes to the first blocked caller. -/
def pop (q : Outbound) : Option Nat × Outbound := { q with queued := q.queued.tail }.grant

/-- A caller no longer wants to queue anything; a slot set aside for him goes to the next. -/
def withdraw (q : Outbound) (caller : Nat) : Option Nat × Outbound :=
  { q with granted := q.granted.erase caller, blocked := q.blocked.erase caller }.grant

/-- Close the queue. What is in it is thrown out, and nobody is served any more. -/
def close (q : Outbound) : Outbound :=
  { q with queued := [], granted := [], blocked := [], closed := true }

end Outbound

end BleHost
