import BleHost.Proofs.Session.Deeds

/-!
# What callers do to the session itself

Whatever a caller does who does not shut the session down, the session and its pump live on as they
did, or the session is taken down because nobody needs it any more (`Handled`). So the life of a
session only changes when its pump ends it, when somebody shuts it down, and when it is taken down.
-/

namespace BleHost

namespace Session

variable {s t u : Session} {request : Request}

/-- Nothing has happened to the session itself and to its pump. -/
structure Unmoved (s t : Session) : Prop where
  lifecycle : t.lifecycle = s.lifecycle
  pumpState : t.pumpState = s.pumpState
  cancelled : t.cancelled = s.cancelled
  joinable : t.joinable = s.joinable
  released : t.released = s.released
  takenDown : t.takenDown = s.takenDown

/-- The session has been taken down, and its pump cut off unless somebody has waited for it. -/
structure Downed (s t : Session) : Prop where
  lifecycle : t.lifecycle = s.lifecycle.stop.2
  pumpState : t.pumpState = s.pumpState ∨ s.joinable = true ∧ t.pumpState = .cutOff
  cancelled : t.cancelled = true
  joinable : t.joinable = s.joinable
  needless : s.released = true
  released : t.released = true
  first : s.takenDown = false
  takenDown : t.takenDown = true

/-- What a caller leaves of a session. -/
inductive Handled (s t : Session) : Prop
  | on (h : Unmoved s t)
  | down (h : Downed s t)

theorem Unmoved.refl (s : Session) : Unmoved s s := ⟨rfl, rfl, rfl, rfl, rfl, rfl⟩

theorem Unmoved.trans (h : Unmoved s t) (h' : Unmoved t u) : Unmoved s u where
  lifecycle := h'.lifecycle.trans h.lifecycle
  pumpState := h'.pumpState.trans h.pumpState
  cancelled := h'.cancelled.trans h.cancelled
  joinable := h'.joinable.trans h.joinable
  released := h'.released.trans h.released
  takenDown := h'.takenDown.trans h.takenDown

theorem Downed.after (h : Downed t u) (hs : Unmoved s t) : Downed s u where
  lifecycle := by rw [h.lifecycle, hs.lifecycle]
  pumpState := by
    rw [← hs.pumpState, ← hs.joinable]
    exact h.pumpState
  cancelled := h.cancelled
  joinable := h.joinable.trans hs.joinable
  needless := hs.released ▸ h.needless
  released := h.released
  first := hs.takenDown ▸ h.first
  takenDown := h.takenDown

theorem Downed.before (h : Downed s t) (hu : Unmoved t u) : Downed s u where
  lifecycle := hu.lifecycle.trans h.lifecycle
  pumpState := by
    rw [hu.pumpState]
    exact h.pumpState
  cancelled := hu.cancelled.trans h.cancelled
  joinable := hu.joinable.trans h.joinable
  needless := h.needless
  released := hu.released.trans h.released
  first := h.first
  takenDown := hu.takenDown.trans h.takenDown

namespace Handled

theorem refl (s : Session) : Handled s s := .on (.refl s)

/-- A session is taken down once at most. -/
theorem trans (h : Handled s t) (h' : Handled t u) : Handled s u := by
  cases h with
  | on h =>
    cases h' with
    | on h' => exact .on (h.trans h')
    | down h' => exact .down (h'.after h)
  | down h =>
    cases h' with
    | on h' => exact .down (h.before h')
    | down h' =>
      have hfirst := h'.first
      rw [h.takenDown] at hfirst
      cases hfirst

/-! ### Parts of a turn -/

theorem closeHub (s : Session) : Unmoved s (s.closeOutstanding .dead).closeHub := by
  obtain ⟨ready, heq, -⟩ := closeOutstanding_eq s .dead
  rw [heq]
  exact ⟨rfl, rfl, rfl, rfl, rfl, rfl⟩

theorem takeDownIfUnused (s : Session) : Handled s s.takeDownIfUnused := by
  unfold Session.takeDownIfUnused
  split
  · rename_i h
    simp only [Bool.and_eq_true, Bool.not_eq_true'] at h
    obtain ⟨⟨hreleased, hfirst⟩, -⟩ := h
    obtain ⟨r, hclose, -⟩ := closeOutstanding_eq
      { s with takenDown := true, cancelled := true, lifecycle := s.lifecycle.stop.2 } .dead
    dsimp only
    rw [hclose]
    split
    · obtain ⟨ready, hwake, -⟩ := wake_eq (Session.closeHub
        { s with
          takenDown := true
          cancelled := true
          lifecycle := s.lifecycle.stop.2
          outstanding := s.outstanding.close
          replies := s.replies ++ lastReplies s.outstanding .dead
          ready := r }) .pump
      rw [hwake]
      exact .down ⟨rfl, .inl rfl, rfl, rfl, hreleased, hreleased, hfirst, rfl⟩
    · rename_i hjoinable
      split
      · exact .down ⟨rfl, .inl rfl, rfl, rfl, hreleased, hreleased, hfirst, rfl⟩
      · obtain ⟨ready, hcut, -⟩ := cutOff_eq (Session.closeHub
          { s with
            takenDown := true
            cancelled := true
            lifecycle := s.lifecycle.stop.2
            outstanding := s.outstanding.close
            replies := s.replies ++ lastReplies s.outstanding .dead
            ready := r })
        rw [hcut]
        have hfree : s.joinable = true := by
          rw [Bool.not_eq_true, Bool.not_eq_false'] at hjoinable
          exact hjoinable
        exact .down ⟨rfl, .inr ⟨hfree, rfl⟩, rfl, rfl, hreleased, hreleased, hfirst, rfl⟩
  · exact .refl s

theorem relinquish (s : Session) (i : Nat) (stage stage' : Stage) :
    Handled s (((s.relinquish i stage).setStage i stage').takeDownIfUnused) := by
  obtain ⟨ready, heq, -⟩ := relinquish_eq s i stage
  have hkept : Unmoved s ((s.relinquish i stage).setStage i stage') := by
    rw [heq]
    exact ⟨rfl, rfl, rfl, rfl, rfl, rfl⟩
  exact (Handled.on hkept).trans (takeDownIfUnused _)

theorem finish (s : Session) (i : Nat) (result : Except Error Outcome) :
    Handled s (s.finish i result) := by
  unfold Session.finish
  split
  · exact .refl s
  · exact relinquish s i _ _

theorem setStage (s : Session) (i : Nat) (stage : Stage) : Unmoved s (s.setStage i stage) :=
  ⟨rfl, rfl, rfl, rfl, rfl, rfl⟩

theorem awaitReply (s : Session) (i : Nat) (request : Request) (waiter : Nat) :
    Handled s (s.awaitReply i request waiter) := by
  unfold Session.awaitReply
  split
  · exact .on (setStage s i _)
  · exact finish s i _
  · exact finish s i _

theorem awaitWrite (s : Session) (i : Nat) (request : Request) (ticket : Nat)
    (waiter : Option Nat) : Handled s (s.awaitWrite i request ticket waiter) := by
  unfold Session.awaitWrite
  split
  · exact .on (setStage s i _)
  · exact finish s i _
  · split
    · exact awaitReply s i request _
    · exact finish s i _

theorem admitted (s : Session) (i : Nat) (request : Request) (bytes : List UInt8)
    (waiter : Option Nat) (admission : Admission) :
    Handled s (s.admitted i request bytes waiter admission) := by
  cases admission with
  | refused => exact (Handled.on (setStage s i _)).trans (finish _ i _)
  | blocked => exact .on (setStage s i _)
  | queued ticket =>
    obtain ⟨ready, heq, -⟩ := wake_eq s .pump
    have hkept : Unmoved s ((s.wake .pump).setStage i (.queued request ticket waiter)) := by
      rw [heq]
      exact ⟨rfl, rfl, rfl, rfl, rfl, rfl⟩
    rw [admitted_queued]
    exact (Handled.on hkept).trans (takeDownIfUnused _)

theorem submit (s : Session) (i : Nat) (request : Request) (bytes : List UInt8)
    (waiter : Option Nat) : Handled s (s.submit i request bytes waiter) := by
  have hkept : Unmoved s { s with outbound := (s.outbound.offer i bytes).2 } :=
    ⟨rfl, rfl, rfl, rfl, rfl, rfl⟩
  exact (Handled.on hkept).trans (admitted _ i request bytes waiter _)

theorem beginExchange (s : Session) (i : Nat) (request : Request) (command : Command) :
    Handled s (s.beginExchange i request command) := by
  unfold Session.beginExchange
  split
  · exact finish s i _
  · split
    · exact finish s i _
    · rename_i waiter outstanding hr
      have hkept : Unmoved s { s with outstanding } := ⟨rfl, rfl, rfl, rfl, rfl, rfl⟩
      exact (Handled.on hkept).trans (submit _ i request command.bytes (some waiter))

theorem queueOnly (s : Session) (i : Nat) (request : Request) (command : Command) :
    Handled s (s.queueOnly i request command) := by
  unfold Session.queueOnly
  split
  · exact finish s i _
  · exact submit s i request command.bytes none

theorem awaitPump (s : Session) (i : Nat) : Handled s (s.awaitPump i) := by
  unfold Session.awaitPump
  split
  · exact (Handled.on (closeHub s)).trans (finish _ i _)
  · exact (Handled.on (closeHub s)).trans (finish _ i _)
  · exact .on (setStage s i _)

/-! ### What callers do -/

theorem advance (s : Session) (i : Nat) (call : Call) : Handled s (s.advance i call) := by
  unfold Session.advance
  split
  · split
    · split
      · exact beginExchange s i _ _
      · exact .refl s
    · exact .refl s
  · rename_i bytes waiter _
    have hkept : Unmoved s { s with outbound := (s.outbound.retry i bytes).2 } :=
      ⟨rfl, rfl, rfl, rfl, rfl, rfl⟩
    exact (Handled.on hkept).trans (admitted _ i _ bytes waiter _)
  · exact awaitWrite s i _ _ _
  · exact awaitReply s i _ _
  · exact awaitPump s i
  · exact .refl s
  · exact .refl s
  · exact .refl s

theorem turn (s : Session) (i : Nat) : Handled s (s.turn i) := by
  unfold Session.turn
  split
  · exact .refl s
  · rename_i call _
    dsimp only
    split
    · exact (advance s i call).trans (finish _ i _)
    · exact advance s i call

theorem begin (s : Session) (i : Nat) (hrequest : request ≠ .shutdown) :
    Handled s (s.begin i request) := by
  have hkept : Handled s { s with line := s.line ++ [i] } := .on ⟨rfl, rfl, rfl, rfl, rfl, rfl⟩
  cases request with
  | send command => exact queueOnly s i _ _
  | initiate command => exact beginExchange s i _ _
  | reset bootInDfu => exact queueOnly s i _ _
  | shutdown => exact absurd rfl hrequest
  | exchange command limit => exact hkept.trans (turn _ i)
  | ask query => exact hkept.trans (turn _ i)

theorem call (s : Session) (hrequest : request ≠ .shutdown) : Handled s (s.call request) := by
  refine Handled.trans (.on ?_) (begin _ s.calls.length hrequest)
  exact ⟨rfl, rfl, rfl, rfl, rfl, rfl⟩

theorem await (s : Session) (i : Nat) (limit : Option Nat) : Handled s (s.await i limit) := by
  unfold Session.await
  split
  · refine Handled.trans (.on ?_) (turn _ i)
    exact ⟨rfl, rfl, rfl, rfl, rfl, rfl⟩
  · exact .refl s

theorem abandon (s : Session) (i : Nat) : Handled s (s.abandon i) := by
  unfold Session.abandon
  split
  · exact .refl s
  · exact .refl s
  · exact .refl s
  · exact relinquish s i _ _

end Handled

/-- What the owner says of the session in an action, before anything comes of it. -/
def ahead (s : Session) : Action → Session
  | .release => { s with released := true }
  | .listen listener => { s with lifecycle := s.lifecycle.listen listener }
  | _ => s

/-- What any action leaves of the session that is neither a round of the pump nor shuts the session
down. -/
theorem handled_of_step? {action : Action} (hstep : s.step? action = some t)
    (hround : action.isRound = false) (hcall : action ≠ .call .shutdown) :
    Handled (s.ahead action) t := by
  cases action with
  | call request =>
    simp only [step?] at hstep
    split at hstep
    · cases hstep
    · rw [← Option.some.inj hstep]
      exact .call s fun hrequest => hcall (by rw [hrequest])
  | await index limit =>
    rw [← Option.some.inj hstep]
    exact .await s index limit
  | abandon index =>
    rw [← Option.some.inj hstep]
    exact .abandon s index
  | release =>
    rw [← Option.some.inj hstep]
    exact .takeDownIfUnused _
  | turn index =>
    rw [← Option.some.inj hstep]
    have hkept : Unmoved s { s with ready := s.ready.erase (.caller index) } :=
      ⟨rfl, rfl, rfl, rfl, rfl, rfl⟩
    exact (Handled.on hkept).trans (.turn _ index)
  | halt => cases hround
  | write outcome => cases hround
  | read outcome => cases hround
  | pause =>
    rw [← Option.some.inj hstep]
    exact .on ⟨rfl, rfl, rfl, rfl, rfl, rfl⟩
  | pass ms =>
    obtain ⟨ready, heq, -⟩ := foldl_wake_eq { s with now := s.now + ms }
      (s.alarms.filter (s.isDue (s.now + ms)))
    rw [← Option.some.inj hstep, setClock, heq]
    exact .on ⟨rfl, rfl, rfl, rfl, rfl, rfl⟩
  | listen listener =>
    simp only [step?] at hstep
    split at hstep
    · cases hstep
    · rw [← Option.some.inj hstep]
      exact .on ⟨rfl, rfl, rfl, rfl, rfl, rfl⟩
  | use use =>
    rw [← Option.some.inj hstep]
    exact .on ⟨rfl, rfl, rfl, rfl, rfl, rfl⟩

/-- What comes of a session that its owner has not let go of stays what it is. -/
theorem Handled.unmoved (h : Handled s t) (hkept : s.released = false) : Unmoved s t := by
  cases h with
  | on h => exact h
  | down h => exact absurd h.needless (by rw [hkept]; decide)

/-- A call that shuts the session down, at a stage. -/
def shutdownAt (stage : Stage) : Call := ⟨.shutdown, none, stage⟩

/-- What comes of a session that somebody shuts down. It is told that it shall end, and then the
first who does so waits for the pump. -/
theorem eq_of_shutdown (hstep : s.step? (.call .shutdown) = some t) : s.released = false ∧
    ∃ alarms ready u, u = { s with
        calls := s.calls ++ [shutdownAt .inLine]
        lifecycle := s.lifecycle.stop.2
        cancelled := true
        alarms
        ready } ∧
      (s.joinable = true ∧ t = Session.awaitPump { u with joinable := false } s.calls.length ∨
        s.joinable = false ∧
          t = (u.closeOutstanding .dead).closeHub.finish s.calls.length (.ok .finished)) := by
  simp only [step?] at hstep
  split at hstep
  · cases hstep
  · rename_i hreleased
    have ht : t = Session.beginShutdown (Session.setAlarm
        { s with calls := s.calls ++ [shutdownAt .inLine] }
        (.caller s.calls.length)) s.calls.length := by
      rw [← Option.some.inj hstep]
      rfl
    rw [beginShutdown] at ht
    generalize hu : Session.wake _ .pump = u at ht
    obtain ⟨ready, hwake, -⟩ := wake_eq (Session.setAlarm
      { s with
        calls := s.calls ++ [shutdownAt .inLine]
        lifecycle := s.lifecycle.stop.2
        cancelled := true } (.caller s.calls.length)) .pump
    have heq := hu.symm.trans hwake
    refine ⟨by simpa using hreleased, _, ready, u, heq, ?_⟩
    have hjoinable : u.joinable = s.joinable := by rw [heq]; rfl
    rw [hjoinable] at ht
    cases hfree : s.joinable with
    | true => exact .inl ⟨rfl, ht.trans (if_pos hfree)⟩
    | false => exact .inr ⟨rfl, ht.trans (if_neg (by rw [hfree]; exact Bool.false_ne_true))⟩

/-- Who shuts a session down ends its life, and tells the pump to stop. -/
theorem unmoved_of_shutdown (hstep : s.step? (.call .shutdown) = some t) :
    Unmoved { s with lifecycle := s.lifecycle.stop.2, cancelled := true, joinable := false } t := by
  obtain ⟨hkept, alarms, ready, u, hu, ⟨-, ht⟩ | ⟨hjoined, ht⟩⟩ := eq_of_shutdown hstep
  · have hwait := (Handled.awaitPump { u with joinable := false } s.calls.length).unmoved
      (by rw [hu]; exact hkept)
    rw [← ht, hu] at hwait
    exact { hwait with }
  · have hend := ((Handled.on (Handled.closeHub u)).trans
      (.finish _ s.calls.length (.ok .finished))).unmoved (by rw [hu]; exact hkept)
    rw [← ht, hu] at hend
    exact { hend with joinable := hend.joinable.trans hjoined }

/-! ### What lasts -/

/-- What has been said to a session is said for good, a stream stays closed, and time goes on. -/
structure Lasting (s t : Session) : Prop where
  now : s.now ≤ t.now
  cancelled : s.cancelled = true → t.cancelled = true
  joined : s.joinable = false → t.joinable = false
  takenDown : s.takenDown = true → t.takenDown = true
  streamClosed : s.hub.stream.closed = true → t.hub.stream.closed = true

namespace Lasting

theorem refl (s : Session) : Lasting s s := ⟨Nat.le_refl _, id, id, id, id⟩

theorem trans (h : Lasting s t) (h' : Lasting t u) : Lasting s u where
  now := Nat.le_trans h.now h'.now
  cancelled := fun hs => h'.cancelled (h.cancelled hs)
  joined := fun hs => h'.joined (h.joined hs)
  takenDown := fun hs => h'.takenDown (h.takenDown hs)
  streamClosed := fun hs => h'.streamClosed (h.streamClosed hs)

/-- Who has not been told to stop now had not been told before. -/
theorem not_cancelled (h : Lasting s t) (hkept : t.cancelled = false) : s.cancelled = false := by
  by_contra hcancel
  rw [Bool.not_eq_false] at hcancel
  rw [h.cancelled hcancel] at hkept
  cases hkept

theorem of_move {i : Nat} (hmove : Move i s t) : Lasting s t := by
  have hsame := refl s
  cases hmove with
  | stop hcall hrequest => exact { hsame with cancelled := fun _ => rfl }
  | join hcancel => exact { hsame with joined := fun _ => rfl }
  | takeDown hreleased hfirst hneed =>
    exact { hsame with cancelled := fun _ => rfl, takenDown := fun _ => rfl }
  | hush hstopped hready hwho => exact { hsame with streamClosed := fun _ => rfl }
  | conclude hpump hrun hstops hready => exact { hsame with streamClosed := fun _ => rfl }
  | tick hle hready hdue => exact { hsame with now := hle }
  | use =>
    exact { hsame with streamClosed := fun hs => (congrArg _ (EventHub.stream_use ..)).trans hs }
  | _ => exact { hsame with }

theorem of_route (s : Session) (frame : Frame) : Lasting s (s.route frame) := by
  have hsame := refl s
  unfold route
  split
  · exact hsame
  · split
    · exact { hsame with streamClosed := fun hs => (EventHub.closed_publish _ _).trans hs }
    · dsimp only
      split
      · exact { hsame with }
      · obtain ⟨ready, heq, -⟩ := tell_eq { s with outstanding := _ } _ (.ok _)
        rw [heq]
        exact { hsame with }

theorem of_moves {i : Nat} {hs : List (Session × Frame)} (hmoves : Moves i hs s t) :
    Lasting s t := by
  induction hmoves with
  | refl s => exact refl s
  | move hmove hrest ih => exact (of_move hmove).trans ih
  | route hrun hrest ih => exact (of_route _ _).trans ih

theorem of_step? {action : Action} (hstep : s.step? action = some t) : Lasting s t := by
  have hmoves := of_moves (moves_of_step? hstep)
  exact { hmoves with }

theorem of_run? {actions : List Action} (hrun : s.run? actions = some t) : Lasting s t :=
  run?_induction (fun _ _ _ hs hstep => trans hs (of_step? hstep)) hrun (refl s)

end Lasting

end Session

end BleHost
