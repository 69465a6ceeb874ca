import BleHost.Link.Scripted
import BleHost.Session.Clock

/-!
# A session at work

A bench is a session on a scripted link with a clock. The parties take their turns in the order in
which they were given a reason for them, and the pump goes on round after round until it has to
wait. Time passes only when nobody has anything left to do, and then up to the next moment at which
somebody has.
-/

namespace BleHost

/-- A session, and the link that its pump uses. -/
structure Bench where
  session : Session
  link : ScriptedLink := {}

namespace Bench

/-- A bench with a session that has just been set up. -/
def ofSettings (settings : Settings) (link : ScriptedLink) : Except Error Bench :=
  (Session.ofSettings settings).map fun session => { session, link }

/-- The time. -/
def now (b : Bench) : Nat := b.session.now

/-! ### Turns -/

/-- A session that has stopped its pump in good order has closed its link. -/
def closeLink (b : Bench) : Bench :=
  match b.session.pumpState with
  | .closed => { b with link := b.link.close }
  | _ => b

/-- One round of the pump, unless it has to wait. -/
def round? (b : Bench) : Option Bench :=
  match b.session.want with
  | .nothing => none
  | .stop => some { b with session := b.session.halt }.closeLink
  | .write frame =>
    let (outcome, link) := b.link.write frame.bytes
    some { session := b.session.wrote frame outcome, link : Bench }.closeLink
  | .read =>
    match b.link.read readRoom with
    | (none, _) => none
    | (some (.ok bytes), link) =>
      some { session := b.session.read (.received bytes), link : Bench }.closeLink
    | (some (.error e), link) =>
      some { session := b.session.read (.failed e), link : Bench }.closeLink

/-- What happens next before time passes: a round of the pump if it is the pump's turn, else the
turn of a caller. The pump keeps its turn until it has to wait. -/
def next? (b : Bench) : Option Bench :=
  match b.session.ready with
  | [] => none
  | .pump :: rest =>
    match b.round? with
    | some b => some b
    | none => some { b with session := { b.session with ready := rest } }
  | .caller index :: rest =>
    some { b with session := { b.session with ready := rest }.turn index }

/-- The turn of the first caller who has a reason for one. -/
def callerTurn? (b : Bench) : Option Bench :=
  match b.session.ready.filterMap Party.caller? with
  | [] => none
  | index :: _ =>
    some { b with
      session := { b.session with ready := b.session.ready.erase (.caller index) }.turn index }

/-- Rounds of the pump until it has to wait, at most so many. -/
def rounds : Nat → Bench → Bench
  | 0, b => b
  | fuel + 1, b =>
    match b.round? with
    | some b => b.rounds fuel
    | none => { b with session := { b.session with ready := b.session.ready.erase .pump } }

/-- Let things happen, at most so many. -/
def run : Nat → Bench → Bench
  | 0, b => b
  | fuel + 1, b =>
    match b.next? with
    | some b => b.run fuel
    | none => b

/-- More than can happen before time passes: a caller takes a turn for each step of a call, the pump
a round for each frame and for each byte that can be read. -/
def work (b : Bench) : Nat :=
  let s := b.session
  let bytes := b.link.inbox.length + (b.link.script.flatMap fun e => e.response).length
  64 * (s.calls.length + 1) + 2 * (s.ready.length + s.outbound.queued.length + bytes)

/-- The turn of the pump, if it has a reason for one. -/
def pumpTurn (b : Bench) : Bench :=
  if b.session.ready.contains .pump then b.rounds b.work else b

/-- Let everything happen that can before time passes. Listeners then get what waits for them. -/
def settle (b : Bench) : Bench :=
  let b := b.run b.work
  { b with session := { b.session with hub := b.session.hub.settle } }

/-! ### Time -/

/-- The next moment at which time itself is a reason to take a turn. -/
def nextMoment? (b : Bench) : Option Nat := b.session.nextMoment?

/-- Let it be a later time. -/
def setClock (b : Bench) (time : Nat) : Bench := { b with session := b.session.setClock time }

/-- Let time pass until a given time, from one moment to the next, at most so many of them. -/
def passMoments : Nat → Nat → Bench → Bench
  | 0, time, b => (b.setClock time).settle
  | fuel + 1, time, b =>
    match b.nextMoment? with
    | some moment =>
      if moment < time then passMoments fuel time (b.setClock moment).settle
      else (b.setClock time).settle
    | none => (b.setClock time).settle

/-- Let time pass until a given time. Moments lie at least a millisecond apart. -/
def advanceTo (b : Bench) (time : Nat) : Bench := passMoments (time - b.now) time b

/-- Let some milliseconds pass. -/
def advance (b : Bench) (ms : Nat) : Bench := b.advanceTo (b.now + ms)

/-! ### Acting on a bench -/

/-- Do something to the session, and let happen what comes of it. -/
def act (b : Bench) (f : Session → Session) : Bench := { b with session := f b.session }.settle

/-- Do something to the link. -/
def script (b : Bench) (f : ScriptedLink → ScriptedLink) : Bench := { b with link := f b.link }

/-- Give the pump a reason to take a turn. -/
def wakePump (b : Bench) : Bench := { b with session := b.session.wake .pump }

/-- Do something to the link that the pump notices while it waits for bytes. -/
def disturb (b : Bench) (f : ScriptedLink → ScriptedLink) : Bench := (b.script f).wakePump.settle

end Bench

end BleHost
