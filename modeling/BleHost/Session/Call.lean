import BleHost.Session.Basic

/-!
# Calls

How a call goes on when its caller takes a turn. Exchanges stand in line, and one has its turn only
when all before it have ended. A call that cannot go on keeps its stage. Time that has run out ends
a call only when it could not go on: what is there when the time is over still counts.
-/

namespace BleHost.Session

/-! ### The steps of a call -/

/-- The response is there, or is awaited. -/
def awaitReply (s : Session) (index : Nat) (request : Request) (waiter : Nat) : Session :=
  match s.reply? waiter with
  | none => s.setStage index (.forReply waiter)
  | some (.error e) => s.finish index (.error e)
  | some (.ok m) => s.finish index (request.conclude m)

/-- The frame has been written, or that is awaited. -/
def awaitWrite (s : Session) (index : Nat) (request : Request) (ticket : Nat)
    (waiter : Option Nat) : Session :=
  match s.receipt? ticket with
  | none => s.setStage index (.forWrite ticket waiter)
  | some (.error e) => s.finish index (.error e)
  | some (.ok ()) =>
    match waiter with
    | some waiter => s.awaitReply index request waiter
    | none => s.finish index (.ok (if request matches .send _ then .written else .finished))

/-- What becomes of a call once its frame has been offered to the outbound queue. -/
def admitted (s : Session) (index : Nat) (request : Request) (bytes : List UInt8)
    (waiter : Option Nat) : Admission → Session
  | .refused => (s.setStage index (.forSlot bytes waiter)).finish index (.error .dead)
  | .blocked => s.setStage index (.forSlot bytes waiter)
  | .queued ticket =>
    let s := s.wake .pump
    let stage := match request, waiter with
      | .initiate _, some waiter => Stage.held ticket waiter
      | _, _ => .forWrite ticket waiter
    (s.setStage index stage).takeDownIfUnused

/-- Offer a frame to the outbound queue. -/
def submit (s : Session) (index : Nat) (request : Request) (bytes : List UInt8)
    (waiter : Option Nat) : Session :=
  let (admission, outbound) := s.outbound.offer index bytes
  { s with outbound }.admitted index request bytes waiter admission

/-- Begin to wait for the response to a command, then queue the command. -/
def beginExchange (s : Session) (index : Nat) (request : Request) (command : Command) : Session :=
  if s.lifecycle.dead then s.finish index (.error .dead)
  else match s.outstanding.register command.responseId with
    | none => s.finish index (.error .dead)
    | some (waiter, outstanding) =>
      { s with outstanding }.submit index request command.bytes (some waiter)

/-- Queue a command for whose response nobody waits. -/
def queueOnly (s : Session) (index : Nat) (request : Request) (command : Command) : Session :=
  if s.lifecycle.dead then s.finish index (.error .dead)
  else s.submit index request command.bytes none

/-- The pump has stopped, or that is awaited. -/
def awaitPump (s : Session) (index : Nat) : Session :=
  match s.pumpState with
  | .closed | .cutOff => (s.closeOutstanding .dead).closeHub.finish index (.ok .finished)
  | _ => s.setStage index .forPump

/-- End the session in good order. Only the first caller waits for the pump. -/
def beginShutdown (s : Session) (index : Nat) : Session :=
  let s := { s with lifecycle := s.lifecycle.stop.2, cancelled := true }.wake .pump
  if s.joinable then { s with joinable := false }.awaitPump index
  else (s.closeOutstanding .dead).closeHub.finish index (.ok .finished)

/-! ### Turns -/

/-- Let a call go on as far as it can. -/
def advance (s : Session) (index : Nat) (call : Call) : Session :=
  match call.stage with
  | .inLine =>
    match call.request.exclusive? with
    | some command =>
      if s.line.head? = some index then s.beginExchange index call.request command else s
    | none => s
  | .forSlot bytes waiter =>
    let (admission, outbound) := s.outbound.retry index bytes
    { s with outbound }.admitted index call.request bytes waiter admission
  | .forWrite ticket waiter => s.awaitWrite index call.request ticket waiter
  | .forReply waiter => s.awaitReply index call.request waiter
  | .forPump => s.awaitPump index
  | .held _ _ | .ended _ _ | .dropped => s

/-- Whether the time of a call is over while it is still going on. -/
def isOverdue (s : Session) (index : Nat) : Bool :=
  match s.calls[index]? with
  | some call => call.stage.isTimed && call.deadline.any (· ≤ s.now)
  | none => false

/-- A turn of a caller. -/
def turn (s : Session) (index : Nat) : Session :=
  match s.calls[index]? with
  | none => s
  | some call =>
    let s := s.advance index call
    if s.isOverdue index then s.finish index (.error .timeout) else s

/-! ### What callers do -/

/-- Begin a call: its first turn. -/
def begin (s : Session) (index : Nat) : Request → Session
  | .send command => s.queueOnly index (.send command) command
  | .initiate command => s.beginExchange index (.initiate command) command
  | .reset bootInDfu =>
    s.queueOnly index (.reset bootInDfu) (Instruction.systemReset bootInDfu).fixed
  | .shutdown => s.beginShutdown index
  | .exchange _ _ | .ask _ => { s with line := s.line ++ [index] }.turn index

/-- Make a call. It gets the next place among all calls. -/
def call (s : Session) (request : Request) : Session :=
  let index := s.calls.length
  let deadline := (request.limit? s.settings.commandTimeout).map (s.now + ·)
  let call : Call := { request, deadline, stage := .inLine }
  ({ s with calls := s.calls ++ [call] }.setAlarm (.caller index)).begin index request

/-- Whether a call has handed over an exchange for which nobody waits yet. -/
def isHeld (s : Session) (index : Nat) : Bool :=
  match s.stage? index with
  | some (.held _ _) => true
  | _ => false

/-- Wait for the response of an exchange that has been handed over. -/
def await (s : Session) (index : Nat) (limit : Option Nat) : Session :=
  match s.stage? index with
  | some (.held ticket waiter) =>
    let calls := s.calls.modify index fun (c : Call) =>
      { c with deadline := limit.map (s.now + ·), stage := .forWrite ticket (some waiter) }
    ({ s with calls }.setAlarm (.caller index)).turn index
  | _ => s

/-- Give up a call, or an exchange that it has handed over. -/
def abandon (s : Session) (index : Nat) : Session :=
  match s.stage? index with
  | none | some (.ended _ _) | some .dropped => s
  | some stage => ((s.relinquish index stage).setStage index .dropped).takeDownIfUnused

/-- The owner lets go of the session. It goes on for as long as a call needs it. -/
def release (s : Session) : Session := { s with released := true }.takeDownIfUnused

end BleHost.Session
