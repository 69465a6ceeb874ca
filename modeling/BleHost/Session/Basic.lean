import BleHost.Catalogue
import BleHost.Events.Hub
import BleHost.Session.Lifecycle
import BleHost.Session.Outbound
import BleHost.Session.Outstanding
import BleHost.Session.Pump
import BleHost.Session.Request
import BleHost.Text.Elapsed

/-!
# Sessions

A session joins callers to a module. Callers queue frames and wait for responses; the pump writes
the frames, reads what the module sends, and hands it out: events to the hub, responses to the
oldest waiter. All parties take turns, and this module holds the state that they share, with the
small changes that their turns are made of.

Time is in milliseconds. The state notes who has been given a reason to take a turn, in the order in
which it happened; a turn without a reason does no harm.
-/

namespace BleHost

/-- How a session is set up. -/
structure Settings where
  /-- The usual limit on the time until a response comes. -/
  commandTimeout : Nat := 2000
  /-- How long one attempt to read may take. -/
  pollInterval : Nat := 100
  /-- How many failures in a row the link may have. -/
  maxFailures : Nat := 10
  /-- The number of slots of the outbound queue. -/
  outboundCapacity : Nat := 32
  /-- The number of events that the stream keeps. -/
  eventCapacity : Nat := 256
  catalogue : Catalogue := .standard

/-- A party that takes turns. -/
inductive Party
  | pump
  | caller (index : Nat)
deriving DecidableEq, Repr

/-- The place of a caller. -/
def Party.caller? : Party → Option Nat
  | pump => none
  | caller index => some index

/-- How far a call has come. -/
inductive Stage
  /-- It waits for the exchanges before it to end. -/
  | inLine
  /-- It waits for a slot in the outbound queue. -/
  | forSlot (bytes : List UInt8) (waiter : Option Nat)
  /-- Its frame is in the queue, and it waits to hear of it. -/
  | forWrite (ticket : Nat) (waiter : Option Nat)
  /-- Its frame has been written, and it waits for the response. -/
  | forReply (waiter : Nat)
  /-- It has handed over the exchange, for which nobody waits yet. -/
  | held (ticket waiter : Nat)
  /-- It waits for the pump to stop. -/
  | forPump
  /-- It has ended. -/
  | ended (time : Nat) (result : Except Error Outcome)
  /-- It has been given up. -/
  | dropped

namespace Stage

/-- The waiter that a stage keeps. -/
def waiter? : Stage → Option Nat
  | forSlot _ waiter | forWrite _ waiter => waiter
  | forReply waiter | held _ waiter => some waiter
  | _ => none

/-- Whether nothing is left to be done. -/
def isOver : Stage → Bool
  | ended _ _ | dropped => true
  | _ => false

/-- Whether time runs against a call. -/
def isTimed : Stage → Bool
  | held _ _ => false
  | stage => !stage.isOver

end Stage

/-- A call, the time at which it is given up, and how far it has come. -/
structure Call where
  request : Request
  deadline : Option Nat := none
  stage : Stage

namespace Call

/-- Whether a call still needs the session itself. A frame that is queued and an exchange that has
been handed over get along without it. -/
def needsSession (c : Call) : Bool :=
  match c.request, c.stage with
  | .send _, .forWrite _ _ => false
  | .initiate _, .forWrite _ _ | .initiate _, .forReply _ | .initiate _, .held _ _ => false
  | _, stage => !stage.isOver

end Call

/-- What the pump is about. -/
inductive PumpState
  | running
  /-- It rests after a failed read. -/
  | resting (wakeAt : Nat)
  /-- It has stopped and closed the link. -/
  | closed
  /-- It was cut off and has left the link as it was. -/
  | cutOff
deriving DecidableEq, Repr

/-- The state of a session. -/
structure Session where
  settings : Settings
  now : Nat := 0
  pump : Pump := {}
  pumpState : PumpState := .running
  /-- Whether the pump has been told to stop. -/
  cancelled : Bool := false
  /-- Whether nobody has begun to wait for the pump to stop. -/
  joinable : Bool := true
  outstanding : Outstanding := {}
  outbound : Outbound
  hub : EventHub
  lifecycle : Lifecycle := {}
  /-- The callers whose exchanges exclude each other; the first one has his turn. -/
  line : List Nat := []
  /-- All calls ever made. -/
  calls : List Call := []
  /-- What became of the frames in the outbound queue. -/
  receipts : List (Nat × Except Error Unit) := []
  /-- What the waiters were told. -/
  replies : List (Nat × Except Error Message) := []
  /-- Whether the owner has let go of the session. -/
  released : Bool := false
  /-- Whether the session has been taken down because nobody needed it. -/
  takenDown : Bool := false
  /-- Who has a reason to take a turn, in order. -/
  ready : List Party := []
  /-- The parties that have set an alarm, in the order in which they last did. -/
  alarms : List Party := []

namespace Session

/-- A session that has just been set up. -/
def ofSettings (settings : Settings) : Except Error Session :=
  if settings.pollInterval = 0 then
    .error (.invalidParameter "poll_interval must be greater than zero")
  else .ok
    { settings
      outbound := .ofCapacity settings.outboundCapacity
      hub := .ofCapacity settings.eventCapacity }

/-- Whether the session is alive. -/
def isAlive (s : Session) : Bool := !s.lifecycle.dead

/-- How many responses are awaited. -/
def pending (s : Session) : Nat := s.outstanding.size

/-- The state of a session in short. -/
def describe (s : Session) : String :=
  s!"BgapiHandler \x7b alive: {s.isAlive}, pending_transactions: {s.pending}, command_timeout: "
    ++ Text.elapsed s.settings.commandTimeout ++ " \x7d"

/-- The stage of a call. -/
def stage? (s : Session) (index : Nat) : Option Stage := (s.calls[index]?).map (·.stage)

/-- What became of a frame. -/
def receipt? (s : Session) (ticket : Nat) : Option (Except Error Unit) :=
  (s.receipts.find? (·.1 == ticket)).map (·.2)

/-- What a waiter was told. -/
def reply? (s : Session) (waiter : Nat) : Option (Except Error Message) :=
  (s.replies.find? (·.1 == waiter)).map (·.2)

/-! ### Reasons to take a turn -/

/-- Give a party a reason to take a turn. -/
def wake (s : Session) (party : Party) : Session :=
  if s.ready.contains party then s else { s with ready := s.ready ++ [party] }

/-- Let a party set its alarm, behind all that are set already. -/
def setAlarm (s : Session) (party : Party) : Session :=
  { s with alarms := s.alarms.erase party ++ [party] }

/-- Give several callers a reason to take a turn. -/
def wakeAll (s : Session) (indices : List Nat) : Session :=
  indices.foldl (fun s index => s.wake (.caller index)) s

/-- The calls for which something holds, by their places. -/
def callsWhere (s : Session) (p : Call → Bool) : List Nat :=
  (List.range s.calls.length).filter fun index => (s.calls[index]?).any p

/-- Give the callers at certain stages a reason to take a turn. -/
def wakeWhere (s : Session) (p : Stage → Bool) : Session :=
  s.wakeAll (s.callsWhere fun c => p c.stage)

/-! ### News for the callers -/

/-- Note what a waiter is told. -/
def tell (s : Session) (waiter : Nat) (reply : Except Error Message) : Session :=
  { s with replies := s.replies ++ [(waiter, reply)] }.wakeWhere fun
    | .forReply w => w = waiter
    | _ => false

/-- Note what became of a frame. -/
def note (s : Session) (ticket : Nat) (outcome : Except Error Unit) : Session :=
  { s with receipts := s.receipts ++ [(ticket, outcome)] }.wakeWhere fun
    | .forWrite t _ => t = ticket
    | _ => false

/-- Tell every waiter that no response will come, and take no new ones. -/
def closeOutstanding (s : Session) (e : Error) : Session :=
  s.outstanding.waiters.foldl (fun s w => s.tell w.id (.error e))
    { s with outstanding := s.outstanding.close }

/-- Close the outbound queue. Nothing that is still in it will ever be written. -/
def closeOutbound (s : Session) : Session :=
  let waiting := s.outbound.granted ++ s.outbound.blocked
  s.outbound.queued.foldl (fun s o => s.note o.ticket (.error .dead))
    ({ s with outbound := s.outbound.close }.wakeAll waiting)

/-- Close the hub. -/
def closeHub (s : Session) : Session := { s with hub := s.hub.close }

/-! ### Stages of a call -/

/-- Put a call at a stage. -/
def setStage (s : Session) (index : Nat) (stage : Stage) : Session :=
  { s with calls := s.calls.modify index fun c => { c with stage } }

/-- Give a slot that has become free to a blocked caller, if there is one. -/
def regrant (s : Session) (freed : Option Nat × Outbound) : Session :=
  { s with outbound := freed.2 }.wakeAll freed.1.toList

/-- Leave the line of exchanges; the next one has its turn then. -/
def leaveLine (s : Session) (index : Nat) : Session :=
  if s.line.contains index then
    let line := s.line.erase index
    { s with line }.wakeAll line.head?.toList
  else s

/-- Give up everything that a call has a claim to: its waiter, its place at the outbound queue, its
place in the line. -/
def relinquish (s : Session) (index : Nat) (stage : Stage) : Session :=
  let s := match stage.waiter? with
    | some waiter => { s with outstanding := s.outstanding.remove waiter }
    | none => s
  let s := match stage with
    | .forSlot _ _ => s.regrant (s.outbound.withdraw index)
    | _ => s
  s.leaveLine index

/-- Cut the pump off, which leaves the link as it is. -/
def cutOff (s : Session) : Session := { s with pumpState := .cutOff }.closeOutbound

/-- Take the session down once its owner has let go of it and no call needs it any more. A pump for
which somebody has waited is told to stop; any other is cut off. -/
def takeDownIfUnused (s : Session) : Session :=
  if s.released && !s.takenDown && (s.callsWhere Call.needsSession).isEmpty then
    let s := { s with takenDown := true, cancelled := true, lifecycle := s.lifecycle.stop.2 }
    let s := (s.closeOutstanding .dead).closeHub
    if !s.joinable then s.wake .pump
    else if s.pumpState = .closed then s
    else s.cutOff
  else s

/-- End a call. -/
def finish (s : Session) (index : Nat) (result : Except Error Outcome) : Session :=
  match s.stage? index with
  | none => s
  | some stage =>
    ((s.relinquish index stage).setStage index (.ended s.now result)).takeDownIfUnused

end Session

end BleHost
