import BleHost.Session.Round

/-!
# The clock of a session

Time passes for a session only when its clock is set. Calls have time limits and a pump that rests
does so for a while; those moments are reasons to take a turn. Of the parties that have waited for
the same moment, the one that set its alarm first goes first.
-/

namespace BleHost.Session

/-- The moment at which time itself is a reason for a party to take a turn. -/
def alarm? (s : Session) : Party → Option Nat
  | .pump =>
    match s.pumpState with
    | .resting wakeAt => some wakeAt
    | _ => none
  | .caller index =>
    match s.calls[index]? with
    | some call => if call.stage.isTimed then call.deadline else none
    | none => none

/-- The moments still to come at which time itself is a reason to take a turn. -/
def moments (s : Session) : List Nat := (s.alarms.filterMap s.alarm?).filter (s.now < ·)

/-- The next of these moments. -/
def nextMoment? (s : Session) : Option Nat := s.moments.min?

/-- Whether the moment of a party comes until a given time. -/
def isDue (s : Session) (time : Nat) (party : Party) : Bool :=
  (s.alarm? party).any fun moment => s.now < moment && moment ≤ time

/-- Let it be a later time. The parties whose moments have come have a reason to take a turn. -/
def setClock (s : Session) (time : Nat) : Session :=
  (s.alarms.filter (s.isDue time)).foldl wake { s with now := time }

end BleHost.Session
