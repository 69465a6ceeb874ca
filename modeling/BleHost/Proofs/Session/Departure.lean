import BleHost.Proofs.Session.Ending
import BleHost.Proofs.Session.Standing

/-!
# What a call leaves alone

A caller who does not shut the session down only ever changes what belongs to his own call
(`Spares`): the other calls stay where they are, whoever else waits keeps waiting in the same order,
and nothing is reported or closed. The one exception is the last call for which a session was needed
after its owner had let go of it: with that call the session is taken down (`spares_of_step?`).
-/

namespace BleHost

namespace Session

variable {i j w : Nat} {s t u : Session} {call : Call} {hs : List (Session × Frame)}
  {action : Action}

/-- Whether the call at a place keeps a waiter. -/
def holds (s : Session) (i w : Nat) : Bool := (s.calls[i]?).any fun c => c.stage.waiter? = some w

theorem holds_iff : s.holds i w = true ↔ s.Keeps i w := by
  simp [holds, Keeps, Option.any_eq_true]

theorem holds_eq (hcall : s.calls[i]? = some call) :
    s.holds i w = decide (call.stage.waiter? = some w) := by
  rw [holds, hcall, Option.any_some]

/-- Those who wait for other calls than the one at a place, oldest first. -/
def waitersBut (s : Session) (i : Nat) : List Waiter :=
  s.outstanding.waiters.filter fun w => !s.holds i w.id

/-- What is left alone by the call at place `i` when one session becomes another. -/
structure Spares (i : Nat) (s t : Session) : Prop where
  dead : t.lifecycle.dead = s.lifecycle.dead
  cancelled : t.cancelled = s.cancelled
  pumpState : t.pumpState = s.pumpState
  calls : ∀ j, j ≠ i → t.calls[j]? = s.calls[j]?
  waiters : t.waitersBut i = s.waitersBut i
  replies : t.replies = s.replies
  receipts : t.receipts = s.receipts
  queued : s.outbound.queued <+: t.outbound.queued
  callers : t.outbound.callers.filter (· != i) = s.outbound.callers.filter (· != i)
  line : t.line.filter (· != i) = s.line.filter (· != i)

namespace Spares

theorem refl (i : Nat) (s : Session) : Spares i s s :=
  ⟨rfl, rfl, rfl, fun _ _ => rfl, rfl, rfl, rfl, List.prefix_refl _, rfl, rfl⟩

theorem trans (h : Spares i s t) (h' : Spares i t u) : Spares i s u where
  dead := h'.dead.trans h.dead
  cancelled := h'.cancelled.trans h.cancelled
  pumpState := h'.pumpState.trans h.pumpState
  calls := fun j hj => (h'.calls j hj).trans (h.calls j hj)
  waiters := h'.waiters.trans h.waiters
  replies := h'.replies.trans h.replies
  receipts := h'.receipts.trans h.receipts
  queued := h.queued.trans h'.queued
  callers := h'.callers.trans h.callers
  line := h'.line.trans h.line

end Spares

/-! ### One move -/

/-- Taking a call out of a list takes nobody else out. -/
theorem filter_ne_erase (l : List Nat) (i : Nat) :
    (l.erase i).filter (· != i) = l.filter (· != i) := by
  rw [← List.erase_filter, List.erase_of_not_mem (by simp)]

theorem filter_ne_withoutCaller (q : Outbound) (i : Nat) (stage : Stage) :
    (withoutCaller q i stage).2.callers.filter (· != i) = q.callers.filter (· != i) := by
  cases stage with
  | forSlot bytes waiter =>
    have hcallers : (q.withdraw i).2.callers = q.granted.erase i ++ q.blocked.erase i :=
      Outbound.callers_grant _
    rw [withoutCaller, hcallers, List.filter_append, filter_ne_erase, filter_ne_erase,
      ← List.filter_append]
    rfl
  | _ => rfl

/-- A call that keeps what it kept leaves the others waiting as they were. -/
theorem waitersBut_of_same (hcall : s.calls[i]? = some call) {f : Call → Call}
    (hcalls : t.calls = s.calls.modify i f) (hwaits : t.outstanding = s.outstanding)
    (hkept : (f call).stage.waiter? = call.stage.waiter?) :
    t.waitersBut i = s.waitersBut i := by
  have hafter : t.calls[i]? = some (f call) := by rw [hcalls, getElem?_modify_self hcall]
  simp only [waitersBut, hwaits, holds_eq hafter, holds_eq hcall, hkept]

/-- A call that gets what it needs to wait with does so behind the others. -/
theorem waitersBut_of_claims (hs : s.WaitersSound) (hcall : s.calls[i]? = some call)
    (hstage : call.stage = .inLine) {bytes : List UInt8} {outstanding : Outstanding}
    {waiter : Option Nat} (hclaims : s.Claims call.request bytes outstanding waiter) {stage : Stage}
    (hwaiter : stage.waiter? = waiter) (hcalls : t.calls = s.calls.modify i (·.atStage stage))
    (hwaits : t.outstanding = outstanding) : t.waitersBut i = s.waitersBut i := by
  have hnone : call.stage.waiter? = none := by rw [hstage]; rfl
  cases hclaims with
  | nothing h hsends hframe =>
    exact waitersBut_of_same hcall hcalls hwaits (hwaiter.trans hnone.symm)
  | waiter hcommand hr =>
    obtain ⟨-, rfl, rfl⟩ := Outstanding.register_eq_some.1 hr
    have hafter : t.calls[i]? = some (call.atStage stage) := by
      rw [hcalls, getElem?_modify_self hcall]
    have hold : ∀ w ∈ s.outstanding.waiters, s.outstanding.lastId + 1 ≠ w.id := by
      intro w hw
      have hle := hs.bound w hw
      omega
    simp only [waitersBut, hwaits, holds_eq hafter, holds_eq hcall, Call.stage_atStage, hwaiter,
      hnone, List.filter_append, Option.some.injEq]
    simpa [List.filter_eq_self.2] using hold

/-- A call that is over takes its own waiter with it. -/
theorem waitersBut_of_over (hcall : s.calls[i]? = some call) {stage : Stage}
    (hover : stage.isOver = true) (hcalls : t.calls = s.calls.modify i (·.atStage stage))
    (hwaits : t.outstanding = withoutWaiter s.outstanding call.stage) :
    t.waitersBut i = s.waitersBut i := by
  have hafter : t.calls[i]? = some (call.atStage stage) := by
    rw [hcalls, getElem?_modify_self hcall]
  simp only [waitersBut, hwaits, holds_eq hafter, holds_eq hcall, Call.stage_atStage,
    Stage.waiter?_eq_none_of_isOver hover, withoutWaiter]
  cases hkept : call.stage.waiter? with
  | none => rfl
  | some w =>
    simp only [Outstanding.remove, List.filter_filter, reduceCtorEq, decide_false, Bool.not_false,
      Bool.true_and, Option.some.injEq]
    refine List.filter_congr fun v _ => ?_
    rw [bne, Bool.beq_comm, Bool.beq_eq_decide_eq]

/-- A move of a caller who does not shut the session down leaves alone whatever does not belong to
his call, unless the session is taken down. -/
theorem Move.spares (hmove : Move i s t) (hs : s.Sound) (hi : i ≤ s.calls.length)
    (hsends : ∀ call, t.calls[i]? = some call → call.request ≠ .shutdown) :
    Spares i s t ∨ t.takenDown = true := by
  have hsame := Spares.refl i s
  have hbefore : ∀ {call : Call}, s.calls[i]? = some call → call.request ≠ .shutdown := by
    intro call hcall
    obtain ⟨call', hcall', hrequest, -⟩ := (Later.of_move hmove).call i call hcall
    exact hrequest ▸ hsends call' hcall'
  have hcalls : ∀ {f : Call → Call}, ∀ j, j ≠ i → (s.calls.modify i f)[j]? = s.calls[j]? :=
    fun j hj => getElem?_modify_of_ne (Ne.symm hj) _
  cases hmove with
  | enter request deadline hi' =>
    refine .inl { hsame with calls := fun j hj => ?_, waiters := ?_, line := ?_ }
    · show (s.calls ++ [_])[j]? = s.calls[j]?
      rw [List.getElem?_append]
      split
      · rfl
      · rename_i hge
        rw [List.getElem?_eq_none (by simp; omega), List.getElem?_eq_none (by omega)]
    · simp [waitersBut, holds, hi', Stage.waiter?]
    · show (if _ then s.line ++ [i] else s.line).filter _ = _
      split
      · simp
      · rfl
  | queue hcall hstage hturn hlive hclaims hopen hroom hready =>
    exact .inl { hsame with
      calls := hcalls
      waiters := waitersBut_of_claims hs.waiters hcall hstage hclaims (Stage.waiter?_queued ..) rfl
        rfl
      queued := List.prefix_append _ _ }
  | block hcall hstage hturn hlive hclaims hopen hroom =>
    refine .inl { hsame with
      calls := hcalls
      waiters := waitersBut_of_claims hs.waiters hcall hstage hclaims rfl rfl rfl
      callers := ?_ }
    simp [Outbound.callers]
  | refuse bytes hcall hstage hturn hlive hclaims hclosed =>
    exact .inl { hsame with
      calls := hcalls
      waiters := waitersBut_of_claims hs.waiters hcall hstage hclaims rfl rfl rfl }
  | retry hcall hstage hopen hgranted hready =>
    refine .inl { hsame with
      calls := hcalls
      waiters := waitersBut_of_same hcall rfl rfl ?_
      queued := List.prefix_append _ _
      callers := ?_ }
    · rw [Call.stage_atStage, Stage.waiter?_queued, hstage]
      rfl
    · simp [Outbound.callers, Outbound.push, filter_ne_erase]
  | expect hcall hstage hreceipt hreply =>
    exact .inl { hsame with
      calls := hcalls, waiters := waitersBut_of_same hcall rfl rfl (by rw [hstage]; rfl) }
  | await hcall hstage =>
    exact .inl { hsame with
      calls := hcalls, waiters := waitersBut_of_same hcall rfl rfl (by rw [hstage]; rfl) }
  | waitForPump hcall hstage hrequest hrun => exact absurd hrequest (hbefore hcall)
  | finish hcall hgoing hover hready =>
    exact .inl { hsame with
      calls := hcalls
      waiters := waitersBut_of_over hcall (isOver_of_finished hover) rfl rfl
      queued := by rw [queued_withoutCaller]
      callers := filter_ne_withoutCaller ..
      line := filter_ne_erase .. }
  | stop hcall hrequest => exact absurd hrequest (hbefore hcall)
  | takeDown hreleased hfirst hneed => exact .inr rfl
  | hush hstopped hready hwho =>
    rcases hwho with hdown | ⟨call, hcall, hrequest | hstage⟩
    · exact .inr hdown
    · exact absurd hrequest (hbefore hcall)
    · have hfit := hs.fit i call hcall
      rw [Call.IsFit, hstage] at hfit
      exact absurd hfit (hbefore hcall)
  | cutOff hdown hsilent hneed hready hopen => exact .inr hdown
  | wrote outcome hpump hrun hqueued hready => omega
  | goOn hpump hrun hnew => omega
  | conclude hpump hrun hstops hready => omega
  | breakOff hpump hrun hb hready => omega
  | _ => exact .inl { hsame with }

/-! ### One action -/

theorem Moves.spares (hmoves : Moves i hs s t) (hnil : hs = []) (hsound : s.Sound)
    (hi : i ≤ s.calls.length)
    (hsends : ∀ call, t.calls[i]? = some call → call.request ≠ .shutdown) :
    Spares i s t ∨ t.takenDown = true := by
  induction hmoves with
  | refl s => exact .inl (.refl i s)
  | @move hs s t u hmove hrest ih =>
    have hi' := Nat.le_trans hi hmove.length_calls_le
    have hnow : ∀ call, t.calls[i]? = some call → call.request ≠ .shutdown := by
      intro call hcall
      obtain ⟨call', hcall', hrequest, -⟩ := (Later.of_moves hrest).call i call hcall
      exact hrequest ▸ hsends call' hcall'
    rcases hmove.spares hsound hi hnow with hspares | hdown
    · exact (ih hnil (hsound.move hmove) hi' hsends).imp_left hspares.trans
    · exact .inr ((ByCaller.of_moves hrest hnil hi').down hdown)
  | route hrun hrest ih => cases hnil

theorem Later.of_step? (hstep : s.step? action = some t) : Later s t :=
  .of_run? (run?_cons_eq_some.2 ⟨t, hstep, run?_nil t⟩)

/-- A caller's own action is made of moves of his own call. -/
theorem moves_of_isOwn (hown : s.IsOwn i action) (hstep : s.step? action = some t) :
    Moves i [] s t := by
  have hactor : s.IsActor i action := by
    cases action with
    | call request => exact Eq.symm hown
    | await index limit => exact Eq.symm hown
    | abandon index => exact Eq.symm hown
    | turn index => exact Eq.symm hown
    | _ => exact absurd hown id
  have hmoves := moves_of_isActor hactor hstep
  cases action with
  | call request => exact hmoves
  | await index limit => exact hmoves
  | abandon index => exact hmoves
  | turn index => exact hmoves
  | _ => exact absurd hown id

/-- A caller without a call can only make one; whatever else he tries does nothing. -/
theorem own_of_nobody (hstep : s.step? action = some t) (hown : s.IsOwn i action)
    (hnone : s.calls[i]? = none) :
    (∃ request, action = .call request ∧ s.calls.length = i) ∨ ∃ ready, t = { s with ready } := by
  have hstage : s.stage? i = none := by rw [stage?, hnone, Option.map_none]
  cases action with
  | call request => exact .inl ⟨request, rfl, hown⟩
  | await index limit =>
    obtain rfl : index = i := hown
    refine .inr ⟨s.ready, ?_⟩
    rw [← Option.some.inj hstep, await, hstage]
  | abandon index =>
    obtain rfl : index = i := hown
    refine .inr ⟨s.ready, ?_⟩
    rw [← Option.some.inj hstep, abandon, hstage]
  | turn index =>
    obtain rfl : index = i := hown
    refine .inr ⟨s.ready.erase (.caller index), ?_⟩
    rw [← Option.some.inj hstep, turn, hnone]
  | _ => exact absurd hown id

/-- Only its own caller brings a call to another stage. -/
theorem isOwn_of_changed (hstep : s.step? action = some t) (hcall : s.calls[i]? = some call)
    (hchanged : t.calls[i]? ≠ some call) : s.IsOwn i action := by
  by_contra hown
  obtain ⟨j, hji, hactor⟩ := exists_isActor_ne hown
  exact hchanged ((moves_of_isActor hactor hstep).call_of_ne hji hcall)

/-- The owner has let go of the session, and no call needs it. -/
def IsUnneeded (s : Session) : Prop :=
  s.released = true ∧ ∀ (j : Nat) (call : Call), s.calls[j]? = some call → call.needsSession = false

namespace IsUnneeded

/-- Of the calls of such a session, one goes on without needing it either. -/
theorem modify (h : s.IsUnneeded) (hcall : s.calls[i]? = some call) {f : Call → Call}
    (hf : (f call).needsSession = false) (j : Nat) (call' : Call)
    (hj : (s.calls.modify i f)[j]? = some call') : call'.needsSession = false := by
  rcases getElem?_modify_cases hcall hj with ⟨-, rfl⟩ | ⟨-, hj⟩
  · exact hf
  · exact h.2 j call' hj

theorem move (h : s.IsUnneeded) (hfit : s.CallsFit) (hmove : Move i s t) : t.IsUnneeded := by
  -- a call needs the session until its frame is in the queue
  have hearly : ∀ {call : Call}, s.calls[i]? = some call → call.stage ≠ .inLine ∧
      ∀ bytes waiter, call.stage ≠ .forSlot bytes waiter := by
    intro call hcall
    have hneeds := h.2 i call hcall
    constructor
    · rintro hstage
      simp [Call.needsSession, hstage, Stage.isOver] at hneeds
    · rintro bytes waiter hstage
      simp [Call.needsSession, hstage, Stage.isOver] at hneeds
  cases hmove with
  | enter request deadline hi hkept => simp [h.1] at hkept
  | queue hcall hstage hturn hlive hclaims hopen hroom hready =>
    exact absurd hstage (hearly hcall).1
  | block hcall hstage hturn hlive hclaims hopen hroom => exact absurd hstage (hearly hcall).1
  | refuse bytes hcall hstage hturn hlive hclaims hclosed =>
    exact absurd hstage (hearly hcall).1
  | retry hcall hstage hopen hgranted hready => exact absurd hstage ((hearly hcall).2 _ _)
  | @expect call ticket waiter hcall hstage hreceipt hreply =>
    refine ⟨h.1, h.modify hcall ?_⟩
    have hneeds := h.2 i call hcall
    have hawaited := hfit i call hcall
    rw [Call.IsFit, hstage] at hawaited
    cases hrequest : call.request with
    | send command => simp [hrequest, Request.awaited?, Request.exclusive?] at hawaited
    | initiate command => simp [Call.needsSession, Call.atStage, hrequest]
    | _ => simp [Call.needsSession, hstage, hrequest, Stage.isOver] at hneeds
  | @await call ticket waiter deadline hcall hstage =>
    refine ⟨h.1, h.modify hcall ?_⟩
    have hfit := hfit i call hcall
    rw [Call.IsFit, hstage] at hfit
    obtain ⟨command, hrequest⟩ := hfit
    simp [Call.needsSession, hrequest]
  | waitForPump hcall hstage hrequest hrun => exact absurd hstage (hearly hcall).1
  | finish hcall hgoing hover hready =>
    refine ⟨h.1, h.modify hcall ?_⟩
    rcases hover with rfl | ⟨result, rfl, -⟩
    · simp [Call.needsSession, Call.atStage, Stage.isOver]
    · simp [Call.needsSession, Call.atStage, Stage.isOver]
  | release => exact ⟨rfl, h.2⟩
  | _ => exact h

end IsUnneeded

theorem Move.isUnneeded (hmove : Move i s t) (hfit : s.CallsFit)
    (h : s.takenDown = true → s.IsUnneeded) (hdown : t.takenDown = true) : t.IsUnneeded := by
  by_cases hbefore : s.takenDown = true
  · exact (h hbefore).move hfit hmove
  · cases hmove with
    | takeDown hreleased hfirst hneed => exact ⟨hreleased, hneed⟩
    | _ => exact absurd hdown hbefore

/-- Only a session that nobody needs is taken down, and nobody needs it ever after. -/
theorem isUnneeded_of_takenDown (h : s.Reachable) (hdown : s.takenDown = true) :
    s.IsUnneeded := by
  refine (h.induction (P := fun s => s.CallsFit ∧ (s.takenDown = true → s.IsUnneeded)) ?_
    (fun _ _ h => h) ?_).2 hdown
  · intro settings s hset
    refine ⟨.ofSettings hset, ?_⟩
    rw [eq_of_ofSettings hset]
    exact nofun
  · intro i hs s t h hmoves
    induction hmoves with
    | refl s => exact h
    | move hmove hrest ih => exact ih ⟨h.1.move hmove, hmove.isUnneeded h.1 h.2⟩
    | @route hs s u frame hrun hrest ih =>
      refine ih ⟨h.1.moves (.route (i := i) hrun (.refl _)), ?_⟩
      obtain ⟨outstanding, news, hub, ready, heq, -⟩ := route_eq s frame
      rw [heq]
      exact h.2

/-- What a caller does with his own call leaves everything else alone, unless he shuts the session
down or it is taken down because nobody needs it any more. -/
theorem spares_of_step? (hs : s.Reachable) (hstep : s.step? action = some t)
    (hown : s.IsOwn i action) (hcall : t.calls[i]? = some call)
    (hsends : call.request ≠ .shutdown) :
    Spares i s t ∨ t.takenDown = true ∧ t.IsUnneeded := by
  have hmoves := moves_of_isOwn hown hstep
  have hi : i ≤ s.calls.length := by
    by_contra hgt
    have hnone := List.getElem?_eq_none (Nat.le_of_not_le hgt)
    rw [hmoves.calls_eq (Nat.lt_of_not_le hgt), hnone] at hcall
    cases hcall
  refine (hmoves.spares rfl (.of_reachable hs) hi fun call' hcall' => ?_).imp_right fun hdown =>
    ⟨hdown, isUnneeded_of_takenDown (hs.step hstep) hdown⟩
  rwa [← Option.some.inj (hcall.symm.trans hcall')]

/-- Whatever ends a call leaves everything else alone, unless the session goes with it. -/
theorem spares_of_over (hs : s.Reachable) (hstep : s.step? action = some t)
    (hcall : s.calls[i]? = some call) (hsends : call.request ≠ .shutdown)
    (hgoing : call.stage.isOver = false) {call' : Call} (hcall' : t.calls[i]? = some call')
    (hover : call'.stage.isOver = true) : Spares i s t ∨ t.takenDown = true ∧ t.IsUnneeded := by
  have hown : s.IsOwn i action := by
    refine isOwn_of_changed hstep hcall fun hsame => ?_
    rw [Option.some.inj (hcall'.symm.trans hsame), hgoing] at hover
    cases hover
  refine spares_of_step? hs hstep hown hcall' ?_
  rwa [(Later.of_step? hstep).request_eq hcall hcall']

/-- A call that is over has taken its own waiter with it, and no other. -/
theorem Spares.waiters_eq (h : Spares i s t) {call' : Call} (hcall' : t.calls[i]? = some call')
    (hover : call'.stage.isOver = true) : t.outstanding.waiters = s.waitersBut i := by
  rw [← h.waiters, waitersBut]
  refine (List.filter_eq_self.2 fun w _ => ?_).symm
  rw [holds_eq hcall', Stage.waiter?_eq_none_of_isOver hover]
  rfl

end Session

end BleHost
