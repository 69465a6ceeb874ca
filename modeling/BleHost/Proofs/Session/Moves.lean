import BleHost.Proofs.Session.Effects
import BleHost.Proofs.Session.Run

/-!
# Moves

The small changes that all actions are made of (`Move`), each with what has to hold before it and
all that is different after it. Every action is a sequence of them (`moves_of_step?`), so that an
invariant of sessions is shown once for each kind of move and then holds of every run. The moves of
one action concern one call at most; the frames that are handed out are listed along the way, each
with the session that it meets.
-/

namespace BleHost

/-- The command of a request whose response is awaited. -/
def Request.awaited? : Request → Option Command
  | initiate command => some command
  | request => request.exclusive?

/-- The frame that a request wants to have written. -/
def Request.frame? : Request → Option (List UInt8)
  | send command | initiate command | exchange command _ => some command.bytes
  | ask query => some query.command.bytes
  | reset bootInDfu => some (Instruction.systemReset bootInDfu).fixed.bytes
  | shutdown => none

/-- What a request for whose response nobody waits ends with once its frame has been written. -/
def Request.onceWritten : Request → Outcome
  | send _ => .written
  | _ => .finished

/-- Whether the pump has stopped for good. -/
def PumpState.isOver : PumpState → Bool
  | closed | cutOff => true
  | running | resting _ => false

/-- The stage of a call whose frame has been queued. -/
def Stage.queued (request : Request) (ticket : Nat) (waiter : Option Nat) : Stage :=
  match request, waiter with
  | .initiate _, some waiter => .held ticket waiter
  | _, _ => .forWrite ticket waiter

namespace Session

/-- The pump is at work and has not been told to stop. -/
def IsRunning (s : Session) : Prop := s.cancelled = false ∧ s.pumpState.isOver = false

/-- What a call comes to when its waiter has been told something. -/
def answer? (s : Session) (request : Request) (waiter : Nat) : Option (Except Error Outcome) :=
  (s.reply? waiter).map fun
    | .error e => .error e
    | .ok m => request.conclude m

/-- What a call comes to when its frame has been dealt with. -/
def report? (s : Session) (request : Request) (ticket : Nat) (waiter : Option Nat) :
    Option (Except Error Outcome) :=
  match s.receipt? ticket with
  | none => none
  | some (.error e) => some (.error e)
  | some (.ok ()) =>
    match waiter with
    | some waiter => s.answer? request waiter
    | none => some (.ok request.onceWritten)

/-- What a call comes to at its stage, as far as that is settled. For a call that stands in line it
counts only once its turn has come, and for one that is held once somebody waits for it. -/
def outcome? (s : Session) (call : Call) : Option (Except Error Outcome) :=
  match call.stage with
  | .inLine => if s.lifecycle.dead || s.outstanding.closed then some (.error .dead) else none
  | .forSlot _ _ => if s.outbound.closed then some (.error .dead) else none
  | .forWrite ticket waiter => s.report? call.request ticket waiter
  | .held ticket waiter => s.report? call.request ticket (some waiter)
  | .forReply waiter => s.answer? call.request waiter
  | .forPump => if s.pumpState.isOver then some (.ok .finished) else none
  | .ended _ _ | .dropped => none

/-- Why a call ends as it does. -/
inductive Ends (s : Session) (call : Call) : Except Error Outcome → Prop
  | settled {result : Except Error Outcome} (h : s.outcome? call = some result) : Ends s call result
  | stopped (hrequest : call.request = .shutdown) (hstage : call.stage = .inLine) :
    Ends s call (.ok .finished)
  | late (h : call.deadline.any (· ≤ s.now) = true) : Ends s call (.error .timeout)

/-- What a call gets to wait with when it queues its frame: nothing, or a new waiter if the frame
carries a command whose response is awaited. -/
inductive Claims (s : Session) (request : Request) : List UInt8 → Outstanding → Option Nat → Prop
  | nothing {bytes : List UInt8} (h : request.awaited? = none) (hsends : request ≠ .shutdown)
    (hframe : request.frame? = some bytes) : Claims s request bytes s.outstanding none
  | waiter {command : Command} {waiter : Nat} {outstanding : Outstanding}
    (h : request.awaited? = some command)
    (hr : s.outstanding.register command.responseId = some (waiter, outstanding)) :
    Claims s request command.bytes outstanding (some waiter)

/-- How the pump stops in good order: what is left of the life of the session, and what the waiters
are told. -/
inductive Stops (s : Session) : Lifecycle → Error → Prop
  | halted (h : s.cancelled = true) : Stops s s.lifecycle .dead
  | lost (cause : String) (h : s.cancelled = false) (hb : s.lifecycle.breaksOff = false) :
    Stops s (s.lifecycle.terminate (.linkLost cause)) (.linkLost cause)

/-- One small change, in which the call at place `i` is the only one to come to another stage. The
pump makes its changes beyond all places of calls. -/
inductive Move (i : Nat) (s : Session) : Session → Prop
  | rouse {ready : List Party} (alarms : List Party) (h : s.ready ⊆ ready)
    (halarms : s.alarms ⊆ alarms) : Move i s { s with ready, alarms }
  /-- A reason to take a turn is used up. -/
  | begin {party : Party} (h : party = .pump ∨ party = .caller i) :
    Move i s { s with ready := s.ready.erase party }
  | enter (request : Request) (deadline : Option Nat) (h : i = s.calls.length)
    (hkept : s.released = false)
    (hlimit : deadline = (request.limit? s.settings.commandTimeout).map (s.now + ·)) :
    Move i s
      { s with
        calls := s.calls ++ [{ request, deadline, stage := .inLine }]
        line := if request.exclusive?.isSome then s.line ++ [i] else s.line }
  /-- A frame is queued. -/
  | queue {call : Call} {bytes : List UInt8} {outstanding : Outstanding} {waiter : Option Nat}
    {ready : List Party} (hcall : s.calls[i]? = some call) (hstage : call.stage = .inLine)
    (hturn : call.request.exclusive?.isSome = true → s.line.head? = some i)
    (hlive : s.lifecycle.dead = false) (hclaims : s.Claims call.request bytes outstanding waiter)
    (hopen : s.outbound.closed = false) (hroom : s.outbound.hasRoom = true)
    (hready : s.ready ⊆ ready) :
    Move i s
      { s with
        outstanding
        outbound := s.outbound.push bytes
        calls := s.calls.modify i
          (·.atStage (.queued call.request (s.outbound.lastTicket + 1) waiter))
        ready }
  /-- There is no slot for a frame. -/
  | block {call : Call} {bytes : List UInt8} {outstanding : Outstanding} {waiter : Option Nat}
    (hcall : s.calls[i]? = some call) (hstage : call.stage = .inLine)
    (hturn : call.request.exclusive?.isSome = true → s.line.head? = some i)
    (hlive : s.lifecycle.dead = false) (hclaims : s.Claims call.request bytes outstanding waiter)
    (hopen : s.outbound.closed = false) (hroom : s.outbound.hasRoom = false) :
    Move i s
      { s with
        outstanding
        outbound := { s.outbound with blocked := s.outbound.blocked ++ [i] }
        calls := s.calls.modify i (·.atStage (.forSlot bytes waiter)) }
  /-- The queue takes no frame any more. -/
  | refuse {call : Call} (bytes : List UInt8) {outstanding : Outstanding} {waiter : Option Nat}
    (hcall : s.calls[i]? = some call) (hstage : call.stage = .inLine)
    (hturn : call.request.exclusive?.isSome = true → s.line.head? = some i)
    (hlive : s.lifecycle.dead = false) (hclaims : s.Claims call.request bytes outstanding waiter)
    (hclosed : s.outbound.closed = true) :
    Move i s
      { s with
        outstanding
        calls := s.calls.modify i (·.atStage (.forSlot bytes waiter)) }
  /-- A frame takes the slot that has been set aside for it. -/
  | retry {call : Call} {bytes : List UInt8} {waiter : Option Nat} {ready : List Party}
    (hcall : s.calls[i]? = some call) (hstage : call.stage = .forSlot bytes waiter)
    (hopen : s.outbound.closed = false) (hgranted : i ∈ s.outbound.granted)
    (hready : s.ready ⊆ ready) :
    Move i s
      { s with
        outbound := { s.outbound with granted := s.outbound.granted.erase i }.push bytes
        calls := s.calls.modify i
          (·.atStage (.queued call.request (s.outbound.lastTicket + 1) waiter))
        ready }
  /-- A frame has been written, and its response is awaited. -/
  | expect {call : Call} {ticket waiter : Nat} (hcall : s.calls[i]? = some call)
    (hstage : call.stage = .forWrite ticket (some waiter))
    (hreceipt : s.receipt? ticket = some (.ok ())) (hreply : s.reply? waiter = none) :
    Move i s { s with calls := s.calls.modify i (·.atStage (.forReply waiter)) }
  /-- Somebody begins to wait for a response. -/
  | await {call : Call} {ticket waiter : Nat} {deadline : Option Nat}
    (hcall : s.calls[i]? = some call) (hstage : call.stage = .held ticket waiter) :
    Move i s
      { s with
        calls := s.calls.modify i fun c =>
          { c with deadline, stage := .forWrite ticket (some waiter) } }
  | waitForPump {call : Call} (hcall : s.calls[i]? = some call) (hstage : call.stage = .inLine)
    (hrequest : call.request = .shutdown) (hrun : s.pumpState.isOver = false) :
    Move i s { s with calls := s.calls.modify i (·.atStage .forPump) }
  /-- A call is over, and gives up all that it has a claim to. -/
  | finish {call : Call} {stage : Stage} {ready : List Party} (hcall : s.calls[i]? = some call)
    (hgoing : call.stage.isOver = false)
    (hover : stage = .dropped ∨ ∃ result, stage = .ended s.now result ∧ s.Ends call result)
    (hready : s.Rouses ready fun j _ =>
      (withoutCaller s.outbound i call.stage).1 = some j ∨
        i ∈ s.line ∧ (s.line.erase i).head? = some j) :
    Move i s
      { s with
        outstanding := withoutWaiter s.outstanding call.stage
        outbound := (withoutCaller s.outbound i call.stage).2
        line := s.line.erase i
        calls := s.calls.modify i (·.atStage stage)
        ready }
  /-- The session is ended in good order. -/
  | stop {call : Call} (hcall : s.calls[i]? = some call) (hrequest : call.request = .shutdown) :
    Move i s { s with lifecycle := s.lifecycle.stop.2, cancelled := true }
  | join (h : s.cancelled = true) : Move i s { s with joinable := false }
  | release : Move i s { s with released := true }
  | takeDown (hreleased : s.released = true) (hfirst : s.takenDown = false)
    (hneed : ∀ (j : Nat) (call : Call), s.calls[j]? = some call → call.needsSession = false) :
    Move i s
      { s with takenDown := true, cancelled := true, lifecycle := s.lifecycle.stop.2 }
  /-- The waiters are told that there will be no response, and the hub is closed. -/
  | hush {ready : List Party} (h : s.cancelled = true ∨ s.pumpState.isOver = true)
    (hready : s.Rouses ready fun _ stage => ∃ w ∈ s.outstanding.waiters, stage = .forReply w.id)
    (hwho : s.takenDown = true ∨ ∃ call : Call, s.calls[i]? = some call ∧
      (call.request = .shutdown ∨ call.stage = .forPump)) :
    Move i s
      { s with
        outstanding := s.outstanding.close
        replies := s.replies ++ lastReplies s.outstanding .dead
        hub := s.hub.close
        ready }
  | cutOff {ready : List Party} (hdown : s.takenDown = true)
    (hsilent : s.outstanding.closed = true)
    (hneed : ∀ (j : Nat) (call : Call), s.calls[j]? = some call → call.needsSession = false)
    (hready : s.Rouses ready (WaitsAt s.outbound)) (hopen : s.pumpState ≠ .closed) :
    Move i s
      { s with
        pumpState := .cutOff
        outbound := s.outbound.close
        receipts := s.receipts ++ lastReceipts s.outbound
        ready }
  /-- The link has answered to the first queued frame. -/
  | wrote {frame : Outgoing} {frames : List Outgoing} (outcome : Except Error Unit)
    {ready : List Party} (hpump : s.calls.length < i) (hrun : s.IsRunning)
    (hqueued : s.outbound.queued = frame :: frames)
    (hready : s.Rouses ready fun j stage =>
      s.outbound.pop.1 = some j ∨ ∃ w, stage = .forWrite frame.ticket w) :
    Move i s
      { s with
        outbound := s.outbound.pop.2
        receipts := s.receipts ++ [(frame.ticket, outcome)]
        ready }
  /-- The pump goes on or rests. -/
  | goOn {pumpState : PumpState} (hpump : s.calls.length < i) (hrun : s.IsRunning)
    (hnew : pumpState.isOver = false) :
    Move i s { s with pumpState }
  /-- The pump stops in good order. -/
  | conclude {lifecycle : Lifecycle} {e : Error} {ready : List Party}
    (hpump : s.calls.length < i) (hrun : s.pumpState.isOver = false) (hstops : s.Stops lifecycle e)
    (hready : s.Rouses ready fun index stage =>
      (∃ w ∈ s.outstanding.waiters, stage = .forReply w.id) ∨ WaitsAt s.outbound index stage ∨
        stage = .forPump) :
    Move i s
      { s with
        lifecycle
        outstanding := s.outstanding.close
        replies := s.replies ++ lastReplies s.outstanding e
        pumpState := .closed
        outbound := s.outbound.close
        receipts := s.receipts ++ lastReceipts s.outbound
        hub := s.hub.close
        ready }
  /-- The pump is cut off by a listener that it tells of a failure. -/
  | breakOff {cause : String} {ready : List Party} (hpump : s.calls.length < i)
    (hrun : s.IsRunning) (hb : s.lifecycle.breaksOff = true)
    (hready : s.Rouses ready fun index stage => WaitsAt s.outbound index stage ∨ stage = .forPump) :
    Move i s
      { s with
        lifecycle := s.lifecycle.terminate (.linkLost cause)
        pumpState := .cutOff
        outbound := s.outbound.close
        receipts := s.receipts ++ lastReceipts s.outbound
        ready }
  /-- Time passes. -/
  | tick {now : Nat} {ready : List Party} (h : s.now ≤ now) (hready : s.ready ⊆ ready)
    (hdue : ∀ party ∈ s.alarms, s.isDue now party = true → party ∈ ready) :
    Move i s { s with now, ready }
  | listen {listener : LifecycleListener} :
    Move i s { s with lifecycle := s.lifecycle.listen listener }
  | use {use : HubUse} : Move i s { s with hub := s.hub.use use }

/-- A call that is finished or dropped is over. -/
theorem isOver_of_finished {s : Session} {call : Call} {stage : Stage}
    (h : stage = .dropped ∨ ∃ result, stage = .ended s.now result ∧ s.Ends call result) :
    stage.isOver = true := by
  rcases h with rfl | ⟨result, rfl, -⟩
  · rfl
  · rfl

/-- Moves one after another, and the frames that are handed out between them. -/
inductive Moves (i : Nat) : List (Session × Frame) → Session → Session → Prop
  | refl (s : Session) : Moves i [] s s
  | move {hs : List (Session × Frame)} {s t u : Session} (h : Move i s t) (hrest : Moves i hs t u) :
    Moves i hs s u
  | route {hs : List (Session × Frame)} {s u : Session} {frame : Frame} (hrun : s.IsRunning)
    (hrest : Moves i hs (s.route frame) u) : Moves i ((s, frame) :: hs) s u

namespace Moves

variable {i : Nat} {hs hs' : List (Session × Frame)} {s t u : Session}

theorem single (h : Move i s t) : Moves i [] s t := .move h (.refl t)

theorem trans (h : Moves i hs s t) (h' : Moves i hs' t u) : Moves i (hs ++ hs') s u := by
  induction h with
  | refl s => exact h'
  | move h _ ih => exact .move h (ih h')
  | route hrun _ ih => exact .route hrun (ih h')

end Moves

end Session

end BleHost
