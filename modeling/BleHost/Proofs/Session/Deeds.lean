import BleHost.Proofs.Session.LinkUse
import BleHost.Proofs.Session.Tickets

/-!
# What callers do while the pump is at work

Of all the moves that callers make, few matter to waiters, frames and the line as long as the pump
is at work: a call comes in, gets a waiter and offers its frame, takes its slot, is over (`Deed`).
What the waiters were told and what was noted of frames does not change meanwhile (`Move.deed`).
What a caller does in one action is a few such deeds, one after another (`Deeds`).
-/

namespace BleHost

/-- Whether an action is a round of the pump. -/
def Action.isRound : Action → Bool
  | halt | write _ | read _ => true
  | _ => false

namespace Session

variable {i j : Nat} {s t : Session} {call : Call} {hs : List (Session × Frame)}

/-- A frame has been queued for a call that is now at a stage, or the call waits for a slot. -/
def Offers (s t : Session) (bytes : List UInt8) (stage : Stage) : Prop :=
  stage.place = .slot ∧ t.outbound.queued = s.outbound.queued ∨
    stage.place = .frame (s.outbound.lastTicket + 1) ∧
      t.outbound.queued = s.outbound.queued ++ [⟨s.outbound.lastTicket + 1, bytes⟩]

/-- What a move of the caller at place `i` comes to. -/
inductive Deed (i : Nat) (s t : Session) : Prop
  | idle (hcalls : t.calls = s.calls) (hwaits : t.outstanding = s.outstanding)
    (hqueued : t.outbound.queued = s.outbound.queued) (hline : t.line = s.line)
  | enter (request : Request) (deadline : Option Nat) (hi : i = s.calls.length)
    (hcalls : t.calls = s.calls ++ [{ request, deadline, stage := .inLine }])
    (hwaits : t.outstanding = s.outstanding) (hqueued : t.outbound.queued = s.outbound.queued)
    (hline : t.line = if request.exclusive?.isSome then s.line ++ [i] else s.line)
  /-- A call gets a waiter and queues its frame, or waits for a slot. -/
  | claim {call : Call} {command : Command} {stage : Stage} (hcall : s.calls[i]? = some call)
    (hstage : call.stage = .inLine) (hcommand : call.request.awaited? = some command)
    (hturn : call.request.exclusive?.isSome = true → s.line.head? = some i)
    (hwaiter : stage.waiter? = some (s.outstanding.lastId + 1))
    (hcalls : t.calls = s.calls.modify i (·.atStage stage))
    (hwaits : t.outstanding =
      { s.outstanding with
        lastId := s.outstanding.lastId + 1
        waiters := s.outstanding.waiters ++ [⟨s.outstanding.lastId + 1, command.responseId⟩] })
    (hoffers : Offers s t command.bytes stage) (hline : t.line = s.line)
  /-- A call for whose response nobody waits queues its frame, or waits for a slot. -/
  | plain {call : Call} {bytes : List UInt8} {stage : Stage} (hcall : s.calls[i]? = some call)
    (hstage : call.stage = .inLine) (hnone : call.request.awaited? = none)
    (hsends : call.request ≠ .shutdown) (hwaiter : stage.waiter? = none)
    (hcalls : t.calls = s.calls.modify i (·.atStage stage))
    (hwaits : t.outstanding = s.outstanding) (hoffers : Offers s t bytes stage)
    (hline : t.line = s.line)
  /-- A call queues its frame in the slot that was set aside for it. -/
  | redeem {call : Call} {bytes : List UInt8} {waiter : Option Nat} {stage : Stage}
    (hcall : s.calls[i]? = some call) (hstage : call.stage = .forSlot bytes waiter)
    (hwaiter : stage.waiter? = waiter) (hplace : stage.place = .frame (s.outbound.lastTicket + 1))
    (hcalls : t.calls = s.calls.modify i (·.atStage stage))
    (hwaits : t.outstanding = s.outstanding)
    (hqueued : t.outbound.queued =
      s.outbound.queued ++ [⟨s.outbound.lastTicket + 1, bytes⟩])
    (hline : t.line = s.line)
  /-- A call comes to another stage and keeps what it has. -/
  | shift {call : Call} {f : Call → Call} (hcall : s.calls[i]? = some call)
    (hrequest : (f call).request = call.request)
    (hwaiter : (f call).stage.waiter? = call.stage.waiter?)
    (hwritten : s.written? (f call) = s.written? call)
    (hplace : ∀ ticket, (f call).stage.place = .frame ticket → call.stage.place = .frame ticket)
    (hleft : ∀ ticket, call.stage.place = .frame ticket →
      (f call).stage.place = .frame ticket ∨ s.written? call = some (.ok ()))
    (hpast : (f call).stage.place ≠ .slot ∧ (f call).stage ≠ .inLine)
    (hcalls : t.calls = s.calls.modify i f) (hwaits : t.outstanding = s.outstanding)
    (hqueued : t.outbound.queued = s.outbound.queued) (hline : t.line = s.line)
  /-- A call is over. -/
  | leave {call : Call} {stage : Stage} (hcall : s.calls[i]? = some call)
    (hgoing : call.stage.isOver = false) (hover : stage.isOver = true)
    (hcalls : t.calls = s.calls.modify i (·.atStage stage))
    (hwaits : t.outstanding = withoutWaiter s.outstanding call.stage)
    (hqueued : t.outbound.queued = s.outbound.queued) (hline : t.line = s.line.erase i)

/-- A pump that is at work was at work before. -/
theorem Move.isRunning (hmove : Move i s t) (hrun : t.IsRunning) : s.IsRunning := by
  cases hmove with
  | stop => cases hrun.1
  | takeDown hreleased hfirst hneed => cases hrun.1
  | cutOff hdown hsilent hneed hready hopen => cases hrun.2
  | goOn hpump hrun' hnew => exact hrun'
  | conclude hpump hrun' hstops hready => cases hrun.2
  | breakOff hpump hrun' hb hready => cases hrun.2
  | _ => exact hrun

theorem Moves.isRunning (hmoves : Moves i hs s t) (hrun : t.IsRunning) : s.IsRunning := by
  induction hmoves with
  | refl s => exact hrun
  | move hmove hrest ih => exact hmove.isRunning (ih hrun)
  | route hrun' hrest ih => exact hrun'

/-- A pump that is at work after an action was at work before it. -/
theorem isRunning_of_step? {action : Action} (hstep : s.step? action = some t)
    (hrun : t.IsRunning) : s.IsRunning :=
  (moves_of_step? hstep).isRunning hrun

/-- What a caller does while the pump is at work. -/
theorem Move.deed (hmove : Move i s t) (hi : i ≤ s.calls.length) (hrun : t.IsRunning)
    (hlife : s.LifeSound) :
    Deed i s t ∧ t.receipts = s.receipts ∧ t.replies = s.replies := by
  cases hmove with
  | enter request deadline hi' => exact ⟨.enter request deadline hi' rfl rfl rfl rfl, rfl, rfl⟩
  | queue hcall hstage hturn hlive hclaims hopen hroom hready =>
    refine ⟨?_, rfl, rfl⟩
    cases hclaims with
    | nothing hnone hsends =>
      exact .plain hcall hstage hnone hsends (Stage.waiter?_queued ..) rfl rfl
        (.inr ⟨Stage.place_queued .., rfl⟩) rfl
    | waiter hcommand hr =>
      obtain ⟨-, rfl, rfl⟩ := Outstanding.register_eq_some.1 hr
      exact .claim hcall hstage hcommand hturn (Stage.waiter?_queued ..) rfl rfl
        (.inr ⟨Stage.place_queued .., rfl⟩) rfl
  | @block call bytes outstanding waiter hcall hstage hturn hlive hclaims hopen hroom =>
    refine ⟨?_, rfl, rfl⟩
    cases hclaims with
    | nothing hnone hsends =>
      exact @Deed.plain i s _ call bytes (.forSlot bytes none) hcall hstage hnone hsends rfl rfl rfl
        (.inl ⟨rfl, rfl⟩) rfl
    | waiter hcommand hr =>
      obtain ⟨-, rfl, rfl⟩ := Outstanding.register_eq_some.1 hr
      exact .claim hcall hstage hcommand hturn rfl rfl rfl (.inl ⟨rfl, rfl⟩) rfl
  | refuse bytes hcall hstage hturn hlive hclaims hclosed =>
    have hover := hlife.outbound_closed.symm.trans hclosed
    rw [show s.pumpState.isOver = false from hrun.2] at hover
    cases hover
  | retry hcall hstage hopen hgranted hready =>
    exact ⟨.redeem hcall hstage (Stage.waiter?_queued ..) (Stage.place_queued ..) rfl rfl rfl rfl,
      rfl, rfl⟩
  | @expect call ticket waiter hcall hstage hreceipt hreply =>
    have hwritten : s.written? call = some (.ok ()) := by
      rw [written?, hstage]
      exact hreceipt
    refine ⟨.shift hcall rfl (by rw [hstage]; rfl) ?_ (fun _ h => by cases h)
      (fun _ _ => .inr hwritten) ⟨by simp [Stage.place], by simp⟩ rfl rfl rfl rfl, rfl, rfl⟩
    exact (show some (Except.ok ()) = _ from hwritten.symm)
  | await hcall hstage =>
    refine ⟨.shift hcall rfl (by rw [hstage]; rfl) ?_ ?_ ?_
      ⟨by simp [Stage.place], by simp⟩ rfl rfl rfl rfl, rfl, rfl⟩
    · rw [written?, written?, hstage]
    · rw [hstage]
      exact fun _ hplace => hplace
    · rw [hstage]
      exact fun _ hplace => .inl hplace
  | waitForPump hcall hstage hrequest hrun' =>
    refine ⟨.shift hcall rfl (by rw [hstage]; rfl) ?_ (fun _ h => by cases h) ?_
      ⟨by simp [Stage.place], by simp⟩ rfl rfl rfl rfl, rfl, rfl⟩
    · rw [written?, written?, hstage]
      rfl
    · rw [hstage]
      exact fun _ hplace => by cases hplace
  | finish hcall hgoing hover hready =>
    exact ⟨.leave hcall hgoing (isOver_of_finished hover) rfl rfl (queued_withoutCaller ..) rfl,
      rfl, rfl⟩
  | stop => cases hrun.1
  | takeDown hreleased hfirst hneed => cases hrun.1
  | hush hstopped hready =>
    rcases hstopped with hcancel | hover
    · rw [show s.cancelled = false from hrun.1] at hcancel
      cases hcancel
    · rw [show s.pumpState.isOver = false from hrun.2] at hover
      cases hover
  | cutOff hdown hsilent hneed hready hopen => cases hrun.2
  | wrote outcome hpump hrun' hqueued hready => exact absurd hi (Nat.not_le.2 hpump)
  | goOn hpump hrun' hnew => exact absurd hi (Nat.not_le.2 hpump)
  | conclude hpump hrun' hstops hready => exact absurd hi (Nat.not_le.2 hpump)
  | breakOff hpump hrun' hb hready => exact absurd hi (Nat.not_le.2 hpump)
  | _ => exact ⟨.idle rfl rfl rfl rfl, rfl, rfl⟩

/-- A deed leaves all other calls as they are. -/
theorem Deed.call_of_ne (h : Deed i s t) (hij : j ≠ i) : t.calls[j]? = s.calls[j]? := by
  cases h with
  | idle hcalls hwaits hqueued hline => rw [hcalls]
  | enter request deadline hi hcalls hwaits hqueued hline =>
    subst hi
    rw [hcalls]
    rcases Nat.lt_or_gt_of_ne hij with hlt | hgt
    · rw [List.getElem?_append_left hlt]
    · rw [List.getElem?_eq_none (by simp; omega), List.getElem?_eq_none (by omega)]
  | claim hcall hstage hcommand hturn hwaiter hcalls hwaits hoffers hline =>
    rw [hcalls, getElem?_modify_of_ne (Ne.symm hij)]
  | plain hcall hstage hnone hsends hwaiter hcalls hwaits hoffers hline =>
    rw [hcalls, getElem?_modify_of_ne (Ne.symm hij)]
  | redeem hcall hstage hwaiter hplace hcalls hwaits hqueued hline =>
    rw [hcalls, getElem?_modify_of_ne (Ne.symm hij)]
  | shift hcall hrequest hwaiter hwritten hplace hleft hpast hcalls hwaits hqueued hline =>
    rw [hcalls, getElem?_modify_of_ne (Ne.symm hij)]
  | leave hcall hgoing hover hcalls hwaits hqueued hline =>
    rw [hcalls, getElem?_modify_of_ne (Ne.symm hij)]

/-! ### One deed after another -/

/-- A session in which everything is in order. -/
structure Sound (s : Session) : Prop where
  fit : s.CallsFit
  life : s.LifeSound
  waiters : s.WaitersSound
  queue : s.QueueSound
  tickets : s.TicketsSound
  line : s.LineSound

namespace Sound

theorem of_reachable (h : s.Reachable) : s.Sound :=
  ⟨.of_reachable h, .of_reachable h, .of_reachable h, .of_reachable h, .of_reachable h,
    .of_reachable h⟩

theorem move (h : s.Sound) (hmove : Move i s t) : t.Sound :=
  ⟨h.fit.move hmove, h.life.move hmove, h.waiters.move hmove, h.queue.move hmove,
    h.tickets.move h.queue hmove, h.line.move hmove⟩

theorem moves (h : s.Sound) (hmoves : Moves i hs s t) : t.Sound :=
  ⟨h.fit.moves hmoves, h.life.moves hmoves, h.waiters.moves hmoves, h.queue.moves hmoves,
    h.tickets.moves h.queue hmoves, h.line.moves hmoves⟩

theorem route (h : s.Sound) (hrun : s.IsRunning) (f : Frame) : (s.route f).Sound :=
  h.moves (.route (i := 0) hrun (.refl _))

end Sound

/-- What the caller at place `i` does one after another. -/
inductive Deeds (i : Nat) : Session → Session → Prop
  | refl (s : Session) : Deeds i s s
  | step {s t u : Session} (hs : s.Sound) (h : Deed i s t) (hreceipts : t.receipts = s.receipts)
    (hreplies : t.replies = s.replies) (hlater : Later s t) (ht : t.Sound) (hrest : Deeds i t u) :
    Deeds i s u

/-- A caller's moves are deeds as long as the pump is at work. -/
theorem Moves.deeds (hmoves : Moves i hs s t) (hnil : hs = []) (hi : i ≤ s.calls.length)
    (hrun : t.IsRunning) (hs : s.Sound) : Deeds i s t := by
  induction hmoves with
  | refl s => exact .refl s
  | move hmove hrest ih =>
    obtain ⟨hdeed, hreceipts, hreplies⟩ := hmove.deed hi (hrest.isRunning hrun) hs.life
    exact .step hs hdeed hreceipts hreplies (.of_move hmove) (hs.move hmove)
      (ih hnil (Nat.le_trans hi hmove.length_calls_le) hrun (hs.move hmove))
  | route hrun' hrest ih => cases hnil

/-- All that callers do comes down to deeds as long as the pump is at work. -/
theorem exists_deeds_of_step? {action : Action} (hstep : s.step? action = some t)
    (hcaller : action.isRound = false) (hrun : t.IsRunning) (hs : s.Sound) : ∃ i, Deeds i s t := by
  have hactor : ∀ i, i ≤ s.calls.length → s.IsActor i action → s.handouts action = [] →
      { s with pump := s.pumpAfter action } = s → ∃ i, Deeds i s t := by
    intro i hi hactor hnil hpump
    have hmoves := moves_of_isActor hactor hstep
    rw [hpump] at hmoves
    exact ⟨i, hmoves.deeds hnil hi hrun hs⟩
  -- a caller at a place without a call does nothing
  have hnobody : ∀ {index : Nat}, ¬ index ≤ s.calls.length → s.stage? index = none := by
    intro index hlt
    rw [stage?, List.getElem?_eq_none (by omega), Option.map_none]
  cases action with
  | halt => cases hcaller
  | write outcome => cases hcaller
  | read outcome => cases hcaller
  | call request => exact hactor _ (Nat.le_refl _) rfl rfl rfl
  | turn index =>
    by_cases hlt : index ≤ s.calls.length
    · exact hactor index hlt rfl rfl rfl
    · have hnone : s.calls[index]? = none := Option.map_eq_none_iff.1 (hnobody hlt)
      have hbegin : Move index s { s with ready := s.ready.erase (.caller index) } :=
        .begin (.inr rfl)
      obtain rfl : t = { s with ready := s.ready.erase (.caller index) } := by
        rw [← Option.some.inj hstep, turn, show _ = none from hnone]
      have hdeed : Deed index s { s with ready := s.ready.erase (.caller index) } :=
        .idle rfl rfl rfl rfl
      exact ⟨index, .step hs hdeed rfl rfl (.of_move hbegin) (hs.move hbegin) (.refl _)⟩
  | await index limit =>
    by_cases hlt : index ≤ s.calls.length
    · exact hactor index hlt rfl rfl rfl
    · rw [← Option.some.inj hstep, await, hnobody hlt]
      exact ⟨0, .refl s⟩
  | abandon index =>
    by_cases hlt : index ≤ s.calls.length
    · exact hactor index hlt rfl rfl rfl
    · rw [← Option.some.inj hstep, abandon, hnobody hlt]
      exact ⟨0, .refl s⟩
  | _ => exact hactor 0 (Nat.zero_le _) trivial rfl rfl

theorem Deeds.later (h : Deeds i s t) : Later s t := by
  induction h with
  | refl s => exact .refl s
  | step hs hdeed hreceipts hreplies hlater ht hrest ih => exact hlater.trans ih

theorem Deeds.receipts_eq (h : Deeds i s t) : t.receipts = s.receipts := by
  induction h with
  | refl s => rfl
  | step hs hdeed hreceipts hreplies hlater ht hrest ih => exact ih.trans hreceipts

theorem Deeds.sound (h : Deeds i s t) (hs : s.Sound) : t.Sound := by
  induction h with
  | refl s => exact hs
  | step hs hdeed hreceipts hreplies hlater ht hrest ih => exact ih ht

end Session

end BleHost
