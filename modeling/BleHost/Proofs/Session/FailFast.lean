import BleHost.Proofs.Session.Ending

/-!
# Failing fast

Once the pump has ended, whoever waits for anything gets to know what has become of it, without
anything else having to happen (`fails_fast`). The one exception is a call that stands in line: its
time may run out before its turn comes, and then it ends for that reason (`not_dead_in_line`).
-/

namespace BleHost

namespace Session

variable {s t : Session} {action : Action}

/-- **Fail-fast.** When an action ends the pump and no listener breaks off the telling, the pump has
one of three causes to end. Each call that is not over then, whatever it waits for, comes to the
fate that is known from the cause and from what was reported before: in every run that follows it is
settled, and stays where it is until its caller takes a turn; then it ends so, unless it is given up
or its time runs out while it stands in line and another call is first. An exchange for which
somebody begins to wait ends so at once. Turns that are taken for a reason come to an end, and when
nobody has a reason to take one, no call is left but exchanges for which nobody waits. -/
theorem fails_fast (hs : s.Reachable) (hquiet : ∀ l ∈ s.lifecycle.listeners, l.panics = false)
    (hstep : s.step? action = some t) (hrun : s.pumpState.isOver = false)
    (hover : t.pumpState.isOver = true) :
    ∃ e, Cause s action t e ∧
      (∀ (j : Nat) (call : Call), s.calls[j]? = some call → ¬ s.IsOwn j action →
        t.calls[j]? = some call) ∧
      ∀ actions u, t.run? actions = some u →
        (∀ (j : Nat) (call : Call), t.calls[j]? = some call → call.stage.isOver = false →
          t.Fares call (s.fate action e call) actions u j) ∧
        (∀ (j : Nat) (call : Call) (ticket waiter : Nat) (limit : Option Nat),
          t.calls[j]? = some call → u.calls[j]? = some call → call.stage = .held ticket waiter →
          ∃ call', (u.await j limit).calls[j]? = some call' ∧ call'.request = call.request ∧
            call'.stage = .ended u.now (s.fate action e call)) ∧
        ((∀ j, .caller j ∉ u.ready) → ∀ (j : Nat) (call : Call), u.calls[j]? = some call →
          call.stage.isOver = true ∨ u.isHeld j = true) ∧
        Acc Stirs u := by
  obtain ⟨e, hending⟩ := exists_ending hs hquiet hstep hrun hover
  have ht := hs.step hstep
  have hclosed : t.IsClosed := ⟨hover, hending.silent⟩
  refine ⟨e, hending.cause, ?_, ?_⟩
  · intro j call hcall hother
    obtain ⟨i, hij, hactor⟩ := exists_isActor_ne hother
    exact (moves_of_isActor hactor hstep).call_of_ne hij hcall
  intro actions u hactions
  have hu := ht.run hactions
  have hclosed' := hclosed.run hactions
  have hfares : ∀ (j : Nat) (call : Call), t.calls[j]? = some call → call.stage.isOver = false →
      t.Fares call (s.fate action e call) actions u j := by
    intro j call hcall hgoing
    obtain ⟨result, hresult⟩ := hclosed.exists_outcome ht hcall hgoing
    rw [← hending.eq_fate hs hrun hresult]
    exact fares_of_run hclosed ht hcall hgoing hresult hactions
  refine ⟨hfares, ?_, ?_, acc_stirs hclosed' hu⟩
  · intro j call ticket waiter limit hcall hcall' hstage
    have hgoing : call.stage.isOver = false := by rw [hstage]; rfl
    obtain ⟨result, hresult⟩ := hclosed.exists_outcome ht hcall hgoing
    have hresult' := (Grown.of_run? hactions).outcome? hresult
    rw [← hending.eq_fate hs hrun hresult]
    exact stage_await hclosed' (LifeSound.of_reachable hu) hcall' hstage hresult' limit
  · exact fun hnone j call hcall => over_or_held hclosed' hu hnone hcall

/-- Two slots in the outbound queue, and no failure allowed. -/
def narrow : Settings where
  maxFailures := 0
  outboundCapacity := 2

/-- An exchange whose frame has been written, one in line behind it, one that has been handed over
and written, two frames in the queue and one that finds the queue full. -/
def busy : List Action :=
  [.listen ⟨7, false⟩, .call (.exchange (.bare 0x00 0x01) none), .write (.ok ()), .turn 0,
    .call (.ask .firmware), .call (.initiate (.bare 0x00 0x06)), .write (.ok ()),
    .call (.send (.bare 0x00 0x01)), .call (.send (.bare 0x00 0x01)),
    .call (.send (.bare 0x00 0x01))]

/-- A write fails while the session is busy; then the callers take their turns. -/
theorem fails_fast_busy : ∃ s₀ s t u, ofSettings narrow = .ok s₀ ∧ s₀.run? busy = some s ∧
    s.step? (.write (.error (.link "unplugged"))) = some t ∧
    t.run? [.turn 0, .turn 3, .turn 4, .turn 5, .turn 1, .await 2 none] = some u ∧
    u.calls.map (·.stage) =
      [.ended 0 (.error (.linkLost "write failed: transport error: unplugged")),
        .ended 0 (.error .dead),
        .ended 0 (.error (.linkLost "write failed: transport error: unplugged")),
        .ended 0 (.error (.link "unplugged")), .ended 0 (.error .dead), .ended 0 (.error .dead)] ∧
    ∃ e, Cause s (.write (.error (.link "unplugged"))) t e ∧
      ∀ (j : Nat) (call : Call), u.calls[j]? = some call →
        call.stage.isOver = true ∨ u.isHeld j = true := by
  have hends : ∀ {s₀ s t u : Session}, ofSettings narrow = .ok s₀ → s₀.run? busy = some s →
      s.step? (.write (.error (.link "unplugged"))) = some t →
      t.run? [.turn 0, .turn 3, .turn 4, .turn 5, .turn 1, .await 2 none] = some u →
      (∀ l ∈ s.lifecycle.listeners, l.panics = false) → s.pumpState.isOver = false →
      t.pumpState.isOver = true → u.ready = [.pump] →
      ∃ e, Cause s (.write (.error (.link "unplugged"))) t e ∧
        ∀ (j : Nat) (call : Call), u.calls[j]? = some call →
          call.stage.isOver = true ∨ u.isHeld j = true := by
    intro s₀ s t u h₀ hs ht hu hquiet hrun hover hready
    obtain ⟨e, hcause, -, hruns⟩ := fails_fast ⟨narrow, s₀, busy, h₀, hs⟩ hquiet ht hrun hover
    refine ⟨e, hcause, (hruns _ u hu).2.2.1 fun j hmem => ?_⟩
    rw [hready] at hmem
    cases List.mem_singleton.1 hmem
  have h₀ : ofSettings narrow = .ok _ := rfl
  refine ⟨_, _, _, _, h₀, (Option.some_get (by decide +kernel)).symm,
    (Option.some_get (by decide +kernel)).symm, (Option.some_get (by decide +kernel)).symm,
    by decide +kernel, ?_⟩
  exact hends h₀ (Option.some_get _).symm (Option.some_get _).symm (Option.some_get _).symm
    (by decide +kernel) (by decide +kernel) (by decide +kernel) (by decide +kernel)

/-- An exchange that waits for its response, and one behind it whose time is over when the pump
gives up. -/
def overdue : List Action :=
  [.call (.exchange (.bare 0x00 0x01) none), .write (.ok ()), .read (.failed (.link "unplugged")),
    .call (.exchange (.bare 0x00 0x08) (some 10)), .pass 10]

/-- A call that stands in line when the pump ends may still be late. -/
theorem not_dead_in_line : ∃ s₀ s t u call, ofSettings { maxFailures := 1 } = .ok s₀ ∧
    s₀.run? overdue = some s ∧ s.pumpState.isOver = false ∧ s.lifecycle.listeners = [] ∧
    s.step? (.read (.failed (.link "unplugged"))) = some t ∧ t.pumpState.isOver = true ∧
    t.calls[1]? = some call ∧ call.stage = .inLine ∧ t.run? [.turn 1, .turn 0] = some u ∧
    u.stage? 1 = some (.ended 10 (.error .timeout)) := by
  have h₀ : ofSettings { maxFailures := 1 } = .ok _ := rfl
  refine ⟨_, _, _, _, _, h₀, (Option.some_get (by decide +kernel)).symm, ?_, ?_,
    (Option.some_get (by decide +kernel)).symm, ?_, (Option.some_get (by decide +kernel)).symm, ?_,
    (Option.some_get (by decide +kernel)).symm, ?_⟩
  all_goals decide +kernel

end Session

end BleHost
