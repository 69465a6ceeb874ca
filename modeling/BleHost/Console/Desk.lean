import BleHost.Bench
import BleHost.Console.Basic

/-!
# A console at work

A desk is a console on a bench whose link changes at set times. When a moment comes, the console
goes first if it has been waiting for it. Then the pump takes its turn and the link changes; where
both had been waiting for the moment, the one that began to wait first goes first, and the pump
takes another turn if the change is one that it notices. Only when neither has anything left to do
does the console go on with what has come of it. Once it is done, nothing more happens.
-/

namespace BleHost

/-- A change to a link at a set time. -/
structure Cue where
  time : Nat
  change : ScriptedLink → ScriptedLink
  /-- Whether a pump that waits for bytes looks at the link again. -/
  noticed : Bool := true

/-- Change the link of a bench. -/
def Cue.apply (cue : Cue) (b : Bench) : Bench :=
  if cue.noticed then (b.script cue.change).wakePump else b.script cue.change

/-- A console, the bench it works on, and the changes still to come, in order. -/
structure Desk where
  console : Console
  bench : Bench
  cues : List Cue := []
  /-- When the pump, which waits for bytes, began to. -/
  waitBegan : Nat := 0
  /-- The moment that the pump had been waiting for already when the next change was set, unless the
  pump has begun to wait anew since. -/
  pumpFirstAt : Option Nat := none

namespace Desk

/-- Set a console to a task on a bench. The first change comes at once and leaves the link as it
is. -/
def start (task : Console.Task) (bench : Bench) (cues : List Cue) : Desk :=
  let (console, session) := Console.start task bench.session
  let opening : Cue := { time := session.now, change := id, noticed := false }
  { console, bench := { bench with session }, cues := opening :: cues }

/-! ### The console -/

/-- One step of the console or of a call that it has made, unless it has to wait. -/
def step? (d : Desk) : Option Desk :=
  match d.bench.callerTurn? with
  | some bench => some { d with bench }
  | none =>
    (d.console.resume? d.bench.session).map fun (console, session) =>
      { d with console, bench := { d.bench with session } }

/-- The console goes on until it has to wait or is done, at most so many steps. -/
def proceedWithin : Nat → Desk → Desk
  | 0, d => d
  | fuel + 1, d =>
    match d.step? with
    | some d => d.proceedWithin fuel
    | none => d

/-- More steps than a console can take before anybody else does something: it takes one for each
event that it can read, and a few for each of its calls. -/
def patience (d : Desk) : Nat := d.bench.work + d.bench.session.hub.stream.tail + 16

/-- The console goes on until it has to wait or is done. -/
def proceed (d : Desk) : Desk := d.proceedWithin d.patience

/-! ### The pump

The pump waits for bytes in attempts that follow one upon the other, each as long as the settings
say. -/

/-- When the first attempt begins: after the rest, if the pump takes one. -/
def firstAttempt (d : Desk) : Nat :=
  match d.bench.session.pumpState with
  | .resting wakeAt => wakeAt
  | _ => d.waitBegan

/-- Whether a rest or an attempt ends at a time, so that the pump goes on of its own accord. -/
def pumpIsDue (d : Desk) (time : Nat) : Bool :=
  d.firstAttempt ≤ time && (time - d.firstAttempt) % d.bench.session.settings.pollInterval == 0

/-- The next time at which the pump goes on of its own accord. -/
def pumpMoment (d : Desk) : Nat :=
  let first := d.firstAttempt
  let length := d.bench.session.settings.pollInterval
  if d.bench.now < first then first
  else first + length * ((d.bench.now - first) / length + 1)

/-- The pump takes its turn, if it has a reason for one. If it does something, its attempts begin
anew; if it finds nothing to do, it waits again for the end of the attempt. A rest is not
interrupted. -/
def pumpTurn (d : Desk) : Desk :=
  let bench := d.bench.pumpTurn
  if !d.bench.session.ready.contains .pump || d.bench.session.want = .nothing then { d with bench }
  else if d.bench.round?.isSome then
    { d with bench, waitBegan := d.bench.now, pumpFirstAt := none }
  else { d with bench, pumpFirstAt := none }

/-! ### Everybody at one moment -/

/-- The console and the pump go on in turn, at most so many times. -/
def settleWithin : Nat → Desk → Desk
  | 0, d => d
  | fuel + 1, d =>
    let d := d.proceed
    if d.console.isFinished || !d.bench.session.ready.contains .pump then d
    else d.pumpTurn.settleWithin fuel

/-- The console and the pump go on until both have to wait or the console is done. The pump takes a
turn for each frame of the console, which sends one for each of its steps. -/
def settle (d : Desk) : Desk := d.settleWithin d.patience

/-- The link changes as is due. The next change is then set. -/
def change (d : Desk) : Desk :=
  match d.cues.span (·.time ≤ d.bench.now) with
  | ([], _) => d
  | (due, cues) =>
    let bench := due.foldl (fun b cue => cue.apply b) d.bench
    { d with bench, cues, pumpFirstAt := some d.pumpMoment }

/-- Everything that happens at one moment. -/
def pass (d : Desk) (pumpFirst : Bool) : Desk :=
  let d := d.proceed
  if d.console.isFinished then d
  else (if pumpFirst then d.pumpTurn else d).change.pumpTurn.settle

/-! ### Time -/

/-- The next moment at which something is due. An attempt that ends brings nothing by itself. -/
def nextMoment? (d : Desk) : Option Nat :=
  (d.bench.nextMoment?.toList ++ d.console.deadline?.toList ++
    (d.cues.head?.map fun cue => max cue.time d.bench.now).toList).min?

/-- Let it be a later time, and everything happen that does then. -/
def moveTo (d : Desk) (time : Nat) : Desk :=
  let bench := d.bench.setClock time
  let bench := if d.pumpIsDue time then bench.wakePump else bench
  { d with bench }.pass (d.pumpFirstAt = some time)

/-- Work until the console is done, or at most through so many moments. -/
def runThrough : Nat → Desk → Desk
  | 0, d => d
  | fuel + 1, d =>
    if d.console.isFinished then d
    else match d.nextMoment? with
      | none => d
      | some moment => (d.moveTo moment).runThrough fuel

/-- More milliseconds than a task can take: each of its calls has a limit, and so has a scan. -/
def longest (d : Desk) : Nat :=
  let limit := 5 * d.bench.session.settings.commandTimeout
  match d.console.task with
  | .discover seconds _ => limit + 1000 * seconds
  | _ => limit

/-- Work until the console is done. The pump was there before the first change. -/
def run (d : Desk) : Desk := (d.pass true).runThrough (d.longest + d.cues.length + 1)

end Desk

end BleHost
