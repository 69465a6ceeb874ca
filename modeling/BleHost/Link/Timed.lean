import BleHost.Link.Scripted

/-!
# A scripted link on a clock

Reads that wait, on a clock that only moves while a read waits: bytes due at a later time arrive
when the clock reaches it, and a read gives up when its own time is over.
-/

namespace BleHost

/-- Bytes that arrive at a set time. -/
structure Arrival where
  due : Nat
  bytes : List UInt8
deriving DecidableEq, Repr

/-- A scripted link, the time in milliseconds, and what is still to arrive, earliest first. -/
structure TimedLink where
  now : Nat := 0
  link : ScriptedLink := {}
  arrivals : List Arrival := []
deriving DecidableEq, Repr

namespace TimedLink

/-- Place an arrival behind those that are due no later. -/
def schedule (arrival : Arrival) : List Arrival → List Arrival
  | [] => [arrival]
  | a :: rest => if a.due ≤ arrival.due then a :: schedule arrival rest else arrival :: a :: rest

/-- Have bytes arrive some milliseconds from now. -/
def injectAfter (t : TimedLink) (delay : Nat) (bytes : List UInt8) : TimedLink :=
  { t with arrivals := schedule ⟨t.now + delay, bytes⟩ t.arrivals }

/-- Let everything arrive that is due by a given moment, and give what is still to arrive. -/
def arrive (moment : Nat) (link : ScriptedLink) : List Arrival → ScriptedLink × List Arrival
  | [] => (link, [])
  | a :: rest =>
    if a.due ≤ moment then arrive moment (link.inject a.bytes) rest else (link, a :: rest)

theorem length_arrive_le (moment : Nat) (link : ScriptedLink) (arrivals : List Arrival) :
    (arrive moment link arrivals).2.length ≤ arrivals.length := by
  induction arrivals generalizing link with
  | nil => simp [arrive]
  | cons a rest ih =>
    simp only [arrive]
    split
    · exact Nat.le_succ_of_le (ih _)
    · exact Nat.le_refl _

/-- Wait for bytes until a deadline. Whatever is due at one moment arrives before the read looks
again, and what is due only at the deadline comes too late. -/
def awaitBytes (room deadline now : Nat) (link : ScriptedLink) (arrivals : List Arrival) :
    Except Error (List UInt8) × TimedLink :=
  match link.read room with
  | (some result, link) => (result, ⟨now, link, arrivals⟩)
  | (none, link) =>
    match arrivals with
    | [] => (.error .timeout, ⟨deadline, link, []⟩)
    | a :: rest =>
      if a.due < deadline then
        awaitBytes room deadline (max now a.due)
          (arrive (max now a.due) (link.inject a.bytes) rest).1
          (arrive (max now a.due) (link.inject a.bytes) rest).2
      else (.error .timeout, ⟨deadline, link, a :: rest⟩)
termination_by arrivals.length
decreasing_by exact Nat.lt_succ_of_le (length_arrive_le _ _ _)

/-- Read at most `room` bytes, waiting for them no longer than `timeout` milliseconds. -/
def receive (t : TimedLink) (room timeout : Nat) : Except Error (List UInt8) × TimedLink :=
  awaitBytes room (t.now + timeout) t.now t.link t.arrivals

end TimedLink

end BleHost
