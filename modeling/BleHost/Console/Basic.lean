import BleHost.Console.Arguments
import BleHost.Console.Report
import BleHost.Session.Round

/-!
# The console

A console carries out one task over a session: it asks a question or two and prints the answers, or
it scans. A scan gives four instructions, each only after the module has said that the one before it
succeeded, and between the third and the fourth it listens for a time to what its stream of events
yields.
-/

namespace BleHost

/-- The four instructions of a scan, in order. -/
inductive ScanStep
  | setMode | setScanParameters | discover | endProcedure
deriving DecidableEq, Repr

namespace ScanStep

/-- The instruction of a step. -/
def instruction (passive : Bool) : ScanStep → Instruction
  | setMode => .setMode (.known .generalDiscoverable) (.known .directedConnectable)
  | setScanParameters => .setScanParameters 0x40 0x30 !passive
  | discover => .discover (.known .generic)
  | endProcedure => .endProcedure

/-- The name by which a failure of the step is reported. -/
def label : ScanStep → String
  | setMode => "set_mode"
  | setScanParameters => "set_scan_parameters"
  | discover => "discover"
  | endProcedure => "end_procedure"

end ScanStep

/-- How far a console has come. -/
inductive ConsoleStage
  /-- It waits for the answer to a question, and may know the firmware already. -/
  | asking (query : Query) (firmware : Option Firmware)
  /-- It waits for the module to say how an instruction of the scan went. -/
  | instructing (step : ScanStep) (devices : DeviceTable)
  /-- It listens until a deadline. -/
  | listening (deadline : Nat) (devices : DeviceTable)
  /-- It is done, or has failed with a message. -/
  | finished (time : Nat) (result : Except String Unit)

/-- A console at its task: when it began, the call and the receiver of events that it has, and what
it has printed. -/
structure Console where
  task : Console.Task
  began : Nat
  call : Nat := 0
  receiver : Nat := 0
  stage : ConsoleStage
  output : String := ""

namespace Console

/-- Print something. -/
def print (c : Console) (text : String) : Console := { c with output := c.output ++ text }

/-- Have done with the task. -/
def finish (c : Console) (s : Session) (result : Except String Unit) : Console × Session :=
  ({ c with stage := .finished s.now result }, s)

/-- Ask a question. -/
def ask (c : Console) (s : Session) (query : Query) (firmware : Option Firmware) :
    Console × Session :=
  ({ c with call := s.calls.length, stage := .asking query firmware }, s.call (.ask query))

/-- Whether a task is a scan in which the console only listens. -/
def Task.isPassive : Task → Bool
  | .discover _ passive => passive
  | _ => false

/-- Give an instruction of the scan. -/
def instruct (c : Console) (s : Session) (step : ScanStep) (devices : DeviceTable) :
    Console × Session :=
  ({ c with call := s.calls.length, stage := .instructing step devices },
    s.call (.exchange (step.instruction c.task.isPassive).fixed (some s.settings.commandTimeout)))

/-- Begin a task. A scan first gets itself a receiver of events. -/
def start (task : Task) (s : Session) : Console × Session :=
  let c : Console := { task, began := s.now, stage := .finished s.now (.ok ()) }
  match task with
  | .hello => c.ask s .hello none
  | .info => c.ask s .firmware none
  | .counters => c.ask s .counters none
  | .connections => c.ask s .connections none
  | .discover _ _ =>
    { c with receiver := s.hub.receivers.length }.instruct { s with hub := s.hub.receiver }
      .setMode .empty

/-- Go on after the answer to a question. -/
def answered? (c : Console) (s : Session) (query : Query) (firmware : Option Firmware)
    (outcome : Outcome) : Console × Session :=
  match query, outcome with
  | .firmware, .message m => c.ask s .address m.firmware?
  | .address, .message m =>
    match firmware, m.address? with
    | some f, some address => (c.print (moduleInformation f address)).finish s (.ok ())
    | _, _ => c.finish s (.ok ())
  | .counters, .message m =>
    match m.counters? with
    | some counters => (c.print (packetCounters counters)).finish s (.ok ())
    | none => c.finish s (.ok ())
  | .connections, .message m =>
    match m.maxConnections? with
    | some count => (c.print (connectionLimit count)).finish s (.ok ())
    | none => c.finish s (.ok ())
  | _, _ => (c.print (answered (s.now - c.began))).finish s (.ok ())

/-- Why an instruction of a scan has not succeeded, if it has not. -/
def complaint? : Except Error Outcome → Option String
  | .error e => some e.message
  | .ok (.message m) =>
    match m.result? with
    | none => some s!"unexpected response {m.name}"
    | some code => if code.isSuccess then none else some s!"{m.name} failed: {code.text}"
  | .ok _ => none

/-- Go on after an instruction of the scan that has succeeded. -/
def succeeded (c : Console) (s : Session) (devices : DeviceTable) : ScanStep → Console × Session
  | .setMode => c.instruct s .setScanParameters devices
  | .setScanParameters => c.instruct s .discover devices
  | .discover =>
    match c.task with
    | .discover seconds passive =>
      ({ c.print (scanBegun seconds passive) with
        stage := .listening (s.now + 1000 * seconds) devices }, s)
    | _ => c.finish s (.ok ())
  | .endProcedure => (c.print (deviceTable devices)).finish s (.ok ())

/-- Take in an event while listening. Only reports of advertisers count. -/
def heard (c : Console) (deadline : Nat) (devices : DeviceTable) (m : Message) : Console :=
  match m.scanReport? with
  | none => { c with stage := .listening deadline devices }
  | some report =>
    let (isNew, devices) := devices.update report
    let c := if isNew then c.print (newDevice report) else c
    { c with stage := .listening deadline devices }

/-- One step of a console that listens, unless it has to wait. -/
def listen? (c : Console) (s : Session) (deadline : Nat) (devices : DeviceTable) :
    Option (Console × Session) :=
  if deadline ≤ s.now then some (c.instruct s .endProcedure devices)
  else
    let (received, hub) := s.hub.receive c.receiver
    match received with
    | .message m => some (c.heard deadline devices m, { s with hub })
    | .lagged _ => some (c, { s with hub })
    | .closed => some (c.finish { s with hub } (.error "handler closed during discovery"))
    | .empty => none

/-- What has become of the console's call, once it has ended. -/
def result? (c : Console) (s : Session) : Option (Except Error Outcome) :=
  match s.stage? c.call with
  | some (.ended _ result) => some result
  | _ => none

/-- One step of a console, unless it has to wait or is done. -/
def resume? (c : Console) (s : Session) : Option (Console × Session) :=
  match c.stage with
  | .finished _ _ => none
  | .listening deadline devices => c.listen? s deadline devices
  | .asking query firmware =>
    match c.result? s with
    | none => none
    | some (.error e) => some (c.finish s (.error e.message))
    | some (.ok outcome) => some (c.answered? s query firmware outcome)
  | .instructing step devices =>
    match c.result? s with
    | none => none
    | some result =>
      match complaint? result with
      | some text => some (c.finish s (.error (step.label ++ ": " ++ text)))
      | none => some (c.succeeded s devices step)

/-- The deadline of a console that listens. -/
def deadline? (c : Console) : Option Nat :=
  match c.stage with
  | .listening deadline _ => some deadline
  | _ => none

/-- Whether a console is done. -/
def isFinished (c : Console) : Bool :=
  match c.stage with
  | .finished _ _ => true
  | _ => false

end Console

end BleHost
