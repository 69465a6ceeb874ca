import BleHost.Proofs.Events.Readout
import BleHost.Proofs.Session.Steps

/-!
# The life of a session

How the parts of a session that end belong together (`LifeSound`): whatever has been closed, the
session is dead, and a dead session has a pump that has stopped or has been told to. So nothing is
closed while the pump is at work (`LifeSound.open_of_isRunning`).
-/

namespace BleHost

/-! ### The parts that end -/

@[simp] theorem Lifecycle.dead_terminate (l : Lifecycle) (cause : Error) :
    (l.terminate cause).dead = true := by
  unfold terminate
  split
  · assumption
  · rfl

@[simp] theorem Lifecycle.dead_stop (l : Lifecycle) : l.stop.2.dead = true := rfl

@[simp] theorem Outbound.closed_grant (q : Outbound) : q.grant.2.closed = q.closed := by
  unfold grant
  split
  · split <;> rfl
  · rfl

@[simp] theorem Outbound.closed_pop (q : Outbound) : q.pop.2.closed = q.closed :=
  closed_grant { q with queued := q.queued.tail }

@[simp] theorem Session.closed_withoutCaller (q : Outbound) (index : Nat) (stage : Stage) :
    (withoutCaller q index stage).2.closed = q.closed := by
  cases stage with
  | forSlot bytes waiter =>
    exact Outbound.closed_grant
      { q with granted := q.granted.erase index, blocked := q.blocked.erase index }
  | _ => rfl

@[simp] theorem Session.closed_withoutWaiter (o : Outstanding) (stage : Stage) :
    (withoutWaiter o stage).closed = o.closed := by
  unfold withoutWaiter
  split <;> rfl

@[simp] theorem Session.lastId_withoutWaiter (o : Outstanding) (stage : Stage) :
    (withoutWaiter o stage).lastId = o.lastId := by
  unfold withoutWaiter
  split <;> rfl

theorem Session.Claims.closed {s : Session} {request : Request} {bytes : List UInt8}
    {outstanding : Outstanding} {waiter : Option Nat}
    (h : s.Claims request bytes outstanding waiter) :
    outstanding.closed = s.outstanding.closed := by
  cases h with
  | nothing h => rfl
  | waiter h hr =>
    unfold Outstanding.register at hr
    split at hr
    · cases hr
    · obtain ⟨-, rfl⟩ := Prod.mk.inj (Option.some.inj hr)
      rfl

namespace Session

/-- How the life of a session, its pump and what it closes belong together. -/
structure LifeSound (s : Session) : Prop where
  dead_of_cancelled : s.cancelled = true → s.lifecycle.dead = true
  dead_of_isOver : s.pumpState.isOver = true → s.lifecycle.dead = true
  stopped_of_dead : s.lifecycle.dead = true → s.cancelled = true ∨ s.pumpState.isOver = true
  cancelled_of_takenDown : s.takenDown = true → s.cancelled = true
  outbound_closed : s.outbound.closed = s.pumpState.isOver
  dead_of_silent : s.outstanding.closed = true → s.lifecycle.dead = true
  dead_of_hubClosed : s.hub.stream.closed = true → s.lifecycle.dead = true

namespace LifeSound

variable {i : Nat} {s t : Session} {hs : List (Session × Frame)}

/-- Nothing is closed while the pump is at work. -/
theorem open_of_isRunning (h : s.LifeSound) (hrun : s.IsRunning) :
    s.lifecycle.dead = false ∧ s.outbound.closed = false ∧ s.outstanding.closed = false ∧
      s.hub.stream.closed = false := by
  have hlive : s.lifecycle.dead = false := by
    by_contra hdead
    rcases h.stopped_of_dead (by simpa using hdead) with hcancel | hover
    · simp [hrun.1] at hcancel
    · simp [hrun.2] at hover
  refine ⟨hlive, h.outbound_closed.trans hrun.2, ?_, ?_⟩
  · by_contra hclosed
    simp [h.dead_of_silent (by simpa using hclosed)] at hlive
  · by_contra hclosed
    simp [h.dead_of_hubClosed (by simpa using hclosed)] at hlive

theorem ofSettings {settings : Settings} (h : ofSettings settings = .ok s) : s.LifeSound := by
  obtain rfl := eq_of_ofSettings h
  exact ⟨nofun, nofun, nofun, nofun, rfl, nofun, nofun⟩

theorem move (h : s.LifeSound) (hmove : Move i s t) : t.LifeSound := by
  cases hmove with
  | queue hcall hstage hturn hlive hclaims hopen hroom hready =>
    exact { h with dead_of_silent := fun hc => h.dead_of_silent (hclaims.closed ▸ hc) }
  | block hcall hstage hturn hlive hclaims hopen hroom =>
    exact { h with dead_of_silent := fun hc => h.dead_of_silent (hclaims.closed ▸ hc) }
  | refuse bytes hcall hstage hturn hlive hclaims hclosed =>
    exact { h with dead_of_silent := fun hc => h.dead_of_silent (hclaims.closed ▸ hc) }
  | finish hcall hgoing hover hready =>
    exact { h with
      outbound_closed := (closed_withoutCaller ..).trans h.outbound_closed
      dead_of_silent := fun hc => h.dead_of_silent ((closed_withoutWaiter ..).symm.trans hc) }
  | stop =>
    exact { h with
      dead_of_cancelled := fun _ => rfl
      dead_of_isOver := fun _ => rfl
      stopped_of_dead := fun _ => .inl rfl
      cancelled_of_takenDown := fun _ => rfl
      dead_of_silent := fun _ => rfl
      dead_of_hubClosed := fun _ => rfl }
  | takeDown hreleased hfirst hneed =>
    exact { h with
      dead_of_cancelled := fun _ => rfl
      dead_of_isOver := fun _ => rfl
      stopped_of_dead := fun _ => .inl rfl
      cancelled_of_takenDown := fun _ => rfl
      dead_of_silent := fun _ => rfl
      dead_of_hubClosed := fun _ => rfl }
  | hush hstopped hready =>
    have hdead := hstopped.elim h.dead_of_cancelled h.dead_of_isOver
    exact { h with dead_of_silent := fun _ => hdead, dead_of_hubClosed := fun _ => hdead }
  | cutOff hdown hsilent hneed hready =>
    have hdead := h.dead_of_silent hsilent
    exact { h with
      dead_of_isOver := fun _ => hdead
      stopped_of_dead := fun _ => .inr rfl
      outbound_closed := rfl }
  | wrote outcome hpump hrun hqueued hready =>
    exact { h with outbound_closed := (Outbound.closed_pop _).trans h.outbound_closed }
  | goOn hpump hrun hnew =>
    have hopen := h.open_of_isRunning hrun
    refine { h with dead_of_isOver := ?_, stopped_of_dead := ?_, outbound_closed := ?_ }
    · intro hover
      rw [hnew] at hover
      cases hover
    · intro hdead
      rw [hopen.1] at hdead
      cases hdead
    · exact hopen.2.1.trans hnew.symm
  | conclude hpump hrun hstops hready =>
    have hdead : ∀ {lifecycle e}, s.Stops lifecycle e → lifecycle.dead = true := by
      rintro lifecycle e (hcancel | ⟨cause, hcancel, hb⟩)
      · exact h.dead_of_cancelled hcancel
      · simp
    exact ⟨fun _ => hdead hstops, fun _ => hdead hstops, fun _ => .inr rfl,
      h.cancelled_of_takenDown, rfl, fun _ => hdead hstops, fun _ => hdead hstops⟩
  | breakOff hpump hrun hb hready =>
    exact ⟨fun _ => by simp, fun _ => by simp, fun _ => .inr rfl, h.cancelled_of_takenDown, rfl,
      fun _ => by simp, fun _ => by simp⟩
  | use =>
    exact { h with dead_of_hubClosed := fun hc => h.dead_of_hubClosed (by simpa using hc) }
  | _ => exact { h with }

theorem route (h : s.LifeSound) (hrun : s.IsRunning) (frame : Frame) :
    (s.route frame).LifeSound := by
  obtain ⟨hlive, hout, hwait, hhub⟩ := h.open_of_isRunning hrun
  unfold Session.route
  split
  · exact h
  · split
    · exact { h with dead_of_hubClosed := fun hc => by simp [hhub] at hc }
    · dsimp only
      split
      · exact { h with dead_of_silent := fun hc => by simp [hwait] at hc }
      · obtain ⟨ready, heq, -⟩ := tell_eq { s with outstanding := _ } _ (.ok _)
        rw [heq]
        exact { h with dead_of_silent := fun hc => by simp [hwait] at hc }

theorem moves (h : s.LifeSound) (hmoves : Moves i hs s t) : t.LifeSound := by
  induction hmoves with
  | refl s => exact h
  | move hmove hrest ih => exact ih (h.move hmove)
  | route hrun hrest ih => exact ih (h.route hrun _)

theorem of_reachable (h : s.Reachable) : s.LifeSound :=
  h.induction (fun _ _ => ofSettings) (fun _ _ h => { h with }) fun _ _ _ _ h => h.moves

end LifeSound

end Session

end BleHost
