import BleHost.Command.Instruction
import BleHost.Message.View

/-!
# What a session can be asked to do

The calls that a session takes, and what they end with.
-/

namespace BleHost

/-- Questions about the module itself, each with one kind of answer. -/
inductive Query
  | hello | firmware | address | counters | connections
deriving DecidableEq, Repr

namespace Query

/-- The command that puts a question. -/
def command : Query → Command
  | hello => Instruction.systemHello.fixed
  | firmware => Instruction.systemGetInfo.fixed
  | address => Instruction.systemAddressGet.fixed
  | counters => Instruction.systemGetCounters.fixed
  | connections => Instruction.systemGetConnections.fixed

/-- The kind of message that answers a question. -/
def answer : Query → MessageKind
  | hello => .systemHello
  | firmware => .systemGetInfo
  | address => .systemAddressGet
  | counters => .systemGetCounters
  | connections => .systemGetConnections

end Query

/-- A call to a session. -/
inductive Request
  /-- Queue a command and learn when it has been written. -/
  | send (command : Command)
  /-- Queue a command and get hold of the exchange, to wait for its response later. -/
  | initiate (command : Command)
  /-- Send a command and wait for its response, within a time limit if there is one. -/
  | exchange (command : Command) (limit : Option Nat)
  /-- Put a question and wait for the answer, within the usual time limit. -/
  | ask (query : Query)
  /-- Restart the module. -/
  | reset (bootInDfu : Bool)
  /-- End the session in good order. -/
  | shutdown
deriving DecidableEq, Repr

namespace Request

/-- The command of a request for an exchange that excludes others. -/
def exclusive? : Request → Option Command
  | exchange command _ => some command
  | ask query => some query.command
  | _ => none

/-- The time limit of a request, given the usual one. -/
def limit? (usual : Nat) : Request → Option Nat
  | exchange _ limit => limit
  | ask _ => some usual
  | _ => none

end Request

/-- What a call ends with when it succeeds. -/
inductive Outcome
  | message (m : Message)
  /-- The frame has been written. -/
  | written
  /-- It is done, and there is nothing to tell. -/
  | finished
deriving DecidableEq

/-- What a call for an answer makes of the response it got: a question is only answered by a message
of the right kind. -/
def Request.conclude (r : Request) (m : Message) : Except Error Outcome :=
  match r with
  | .ask query =>
    if m.kind = query.answer then
      .ok (if query = .hello then .finished else .message m)
    else .error (.protocol s!"unexpected response {m.name}")
  | _ => .ok (.message m)

end BleHost
