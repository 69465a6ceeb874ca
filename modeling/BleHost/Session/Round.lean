import BleHost.Session.Call

/-!
# Rounds of the pump

The pump works in rounds. In each it stops if it has been told to, else writes the first queued
frame, else reads once. What it reads goes, frame by frame, to the hub or to the oldest waiter, as
the header of the frame says; a frame that cannot be decoded goes nowhere.
-/

namespace BleHost

/-- What the pump does next. -/
inductive Want
  /-- It rests or has stopped. -/
  | nothing
  | stop
  | write (frame : Outgoing)
  | read
deriving DecidableEq, Repr

namespace Session

/-- What the pump does next. -/
def want (s : Session) : Want :=
  let next : Want :=
    if s.cancelled then .stop
    else match s.outbound.queued with
      | frame :: _ => .write frame
      | [] => .read
  match s.pumpState with
  | .closed | .cutOff => .nothing
  | .resting wakeAt => if s.now < wakeAt then .nothing else next
  | .running => next

/-! ### The end of the pump -/

/-- The pump stops in good order and closes the link. -/
def conclude (s : Session) : Session :=
  ({ s with pumpState := .closed }.closeOutbound.closeHub).wakeWhere fun
    | .forPump => true
    | _ => false

/-- The pump has been told to stop. -/
def halt (s : Session) : Session := (s.closeOutstanding .dead).conclude

/-- The link has failed for good: the listeners are told, then the waiters. A listener that breaks
off the telling leaves the rest undone. -/
def giveUp (s : Session) (cause : String) : Session :=
  let told := { s with lifecycle := s.lifecycle.terminate (.linkLost cause) }
  if s.lifecycle.breaksOff then
    told.cutOff.wakeWhere fun
      | .forPump => true
      | _ => false
  else (told.closeOutstanding (.linkLost cause)).conclude

/-- Go on as a verdict says. -/
def obey (s : Session) : Verdict → Session
  | .goOn => { s with pumpState := .running }
  | .rest => { s with pumpState := .resting (s.now + Pump.restTime) }.setAlarm .pump
  | .giveUp cause => s.giveUp cause

/-! ### Rounds -/

/-- Hand out one frame. -/
def route (s : Session) (frame : Frame) : Session :=
  match s.settings.catalogue.decode frame with
  | .error _ => s
  | .ok m =>
    if frame.id.isEvent then { s with hub := s.hub.publish m }
    else
      let (taker, outstanding) := s.outstanding.offer frame.id m
      match taker with
      | none => { s with outstanding }
      | some waiter => { s with outstanding }.tell waiter (.ok m)

/-- A frame from the queue has been given to the link, which answered. -/
def wrote (s : Session) (frame : Outgoing) (outcome : Except Error Unit) : Session :=
  let (pump, verdict) := s.pump.wrote s.settings.maxFailures outcome
  (({ s with pump }.regrant s.outbound.pop).note frame.ticket outcome).obey verdict

/-- The link has been read. -/
def read (s : Session) (outcome : ReadOutcome) : Session :=
  let (pump, frames, verdict) := s.pump.read s.settings.maxFailures outcome
  (frames.foldl route { s with pump }).obey verdict

end Session

end BleHost
