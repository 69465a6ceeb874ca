import BleHost.Proofs.Session.Deadlines
import BleHost.Proofs.Session.Departure
import BleHost.Proofs.Session.Notices

/-!
# Ending a session in good order

Whoever shuts a session down is told in the end that it is over. The first one waits for the pump,
and whoever comes after him while he waits does not: he is told at once, even if the pump has not
stopped and the link is open (`Shut`, `shutdown_waits_once`). Apart from that, nobody who has been
told so finds anything alive, awaited or open; and to shut a session down once more when all is over
changes nothing.
-/

namespace BleHost

theorem modify_concat {α : Type} (l : List α) (a : α) (f : α → α) :
    (l ++ [a]).modify l.length f = l ++ [f a] := by
  induction l with
  | nil => rfl
  | cons b l ih =>
    rw [List.cons_append, List.length_cons, List.modify_succ_cons, ih]
    rfl

/-- A pump that is over has closed the link unless it was cut off. -/
theorem PumpState.eq_closed {state : PumpState} (hover : state.isOver = true)
    (hfree : state ≠ .cutOff) : state = .closed := by
  cases state with
  | running => cases hover
  | resting wakeAt => cases hover
  | closed => rfl
  | cutOff => exact absurd rfl hfree

namespace Session

variable {i j n : Nat} {s s₀ t u v : Session} {hs : List (Session × Frame)} {action : Action}
  {actions : List Action} {call : Call}

/-! ### What ends with a session -/

/-- Nobody is answered any more, and the stream is closed. -/
structure Hushed (s : Session) : Prop where
  silent : s.outstanding.closed = true
  streamClosed : s.hub.stream.closed = true

namespace Hushed

theorem moves (h : s.Hushed) (hmoves : Moves i hs s t) : t.Hushed :=
  ⟨(Grown.of_moves hmoves).silent h.silent, (Lasting.of_moves hmoves).streamClosed h.streamClosed⟩

theorem step (h : s.Hushed) (hstep : s.step? action = some t) : t.Hushed :=
  ⟨(Grown.of_step? hstep).silent h.silent, (Lasting.of_step? hstep).streamClosed h.streamClosed⟩

theorem closeHub (s : Session) : (s.closeOutstanding .dead).closeHub.Hushed := by
  obtain ⟨ready, heq, -⟩ := closeOutstanding_eq s .dead
  rw [heq]
  exact ⟨rfl, rfl⟩

theorem finish (h : s.Hushed) (i : Nat) (result : Except Error Outcome) :
    (s.finish i result).Hushed := by
  unfold Session.finish
  split
  · exact h
  · rename_i stage _
    obtain ⟨ready, heq, -⟩ := relinquish_eq s i stage
    rw [heq]
    have hkept : Hushed (Session.setStage
        { s with
          outstanding := withoutWaiter s.outstanding stage
          outbound := (withoutCaller s.outbound i stage).2
          line := s.line.erase i
          ready } i (.ended s.now result)) :=
      ⟨(closed_withoutWaiter ..).trans h.silent, h.streamClosed⟩
    exact hkept.moves (moves_takeDownIfUnused i _)

end Hushed

theorem calls_closeHub_finish (s : Session) (i : Nat) :
    ((s.closeOutstanding .dead).closeHub.finish i (.ok .finished)).calls =
      s.calls.modify i (·.atStage (.ended s.now (.ok .finished))) := by
  obtain ⟨ready, heq, -⟩ := closeOutstanding_eq s .dead
  rw [calls_finish, heq]
  rfl

/-- Who waits for the pump is told that it is over, or goes on waiting. -/
theorem awaitPump_cases (s : Session) (i : Nat) :
    (s.pumpState.isOver = true ∧ (s.awaitPump i).Hushed ∧
      (s.awaitPump i).calls = s.calls.modify i (·.atStage (.ended s.now (.ok .finished)))) ∨
    (s.pumpState.isOver = false ∧
      (s.awaitPump i).calls = s.calls.modify i (·.atStage .forPump)) := by
  unfold awaitPump
  cases hstate : s.pumpState with
  | running => exact .inr ⟨rfl, rfl⟩
  | resting wakeAt => exact .inr ⟨rfl, rfl⟩
  | closed => exact .inl ⟨rfl, (Hushed.closeHub s).finish i _, calls_closeHub_finish s i⟩
  | cutOff => exact .inl ⟨rfl, (Hushed.closeHub s).finish i _, calls_closeHub_finish s i⟩

/-! ### Steps of those who shut a session down -/

/-- Only the first one waits for the pump. -/
theorem calls_of_shutdown (hstep : s.step? (.call .shutdown) = some t) :
    t.calls = s.calls ++ [shutdownAt .forPump] ∧ s.joinable = true ∧ s.pumpState.isOver = false ∨
      t.calls = s.calls ++ [shutdownAt (.ended s.now (.ok .finished))] ∧ t.Hushed ∧
        (s.joinable = false ∨ s.pumpState.isOver = true) := by
  obtain ⟨-, alarms, ready, u, hu, hways⟩ := eq_of_shutdown hstep
  have hnow : u.now = s.now := by rw [hu]
  have hpump : u.pumpState = s.pumpState := by rw [hu]
  have hmodify : ∀ stage, u.calls.modify s.calls.length (·.atStage stage) =
      s.calls ++ [shutdownAt stage] := by
    intro stage
    rw [hu]
    exact modify_concat s.calls (shutdownAt .inLine) (·.atStage stage)
  rcases hways with ⟨hfree, ht⟩ | ⟨hjoined, ht⟩
  · rcases awaitPump_cases { u with joinable := false } s.calls.length with
      ⟨hover, hhushed, hlast⟩ | ⟨hover, hlast⟩
    · rw [← ht] at hhushed hlast
      refine .inr ⟨?_, hhushed, .inr (hpump ▸ hover)⟩
      rw [hlast, ← hnow]
      exact hmodify _
    · rw [← ht] at hlast
      exact .inl ⟨hlast.trans (hmodify _), hfree, hpump ▸ hover⟩
  · refine .inr ⟨?_, ht ▸ (Hushed.closeHub u).finish _ _, .inl hjoined⟩
    rw [ht, calls_closeHub_finish, hnow]
    exact hmodify _

/-- Who waits for the pump goes on waiting, gives up, or is told that it is over. -/
theorem waiting_of_step? (hstep : s.step? action = some t)
    (hcall : s.calls[j]? = some (shutdownAt .forPump)) :
    t.calls[j]? = some (shutdownAt .forPump) ∨ t.calls[j]? = some (shutdownAt .dropped) ∨
      t.calls[j]? = some (shutdownAt (.ended s.now (.ok .finished))) ∧ t.Hushed ∧
        s.pumpState.isOver = true := by
  by_cases hchanged : t.calls[j]? = some (shutdownAt .forPump)
  · exact .inl hchanged
  have hown := isOwn_of_changed hstep hcall hchanged
  cases action with
  | call request =>
    rw [List.getElem?_eq_none (Nat.le_of_eq hown)] at hcall
    cases hcall
  | await index limit =>
    obtain rfl : index = j := hown
    rw [← Option.some.inj hstep, Session.await, stage?_eq hcall] at hchanged
    exact absurd hcall hchanged
  | abandon index =>
    obtain rfl : index = j := hown
    obtain ⟨ready, heq, -⟩ := relinquish_eq s index .forPump
    refine .inr (.inl ?_)
    rw [← Option.some.inj hstep, abandon, stage?_eq hcall]
    show ((s.relinquish index .forPump).setStage index .dropped).takeDownIfUnused.calls[index]? = _
    rw [calls_takeDownIfUnused, setStage_eq, heq, getElem?_modify_self hcall]
    rfl
  | turn index =>
    obtain rfl : index = j := hown
    generalize hu : ({ s with ready := s.ready.erase (.caller index) } : Session) = u
    have hfields : u.calls = s.calls ∧ u.pumpState = s.pumpState ∧ u.now = s.now := by
      rw [← hu]
      exact ⟨rfl, rfl, rfl⟩
    obtain ⟨hcalls, hpump, hnow⟩ := hfields
    have hcall' : u.calls[index]? = some (shutdownAt .forPump) := hcalls ▸ hcall
    -- time never runs out for somebody who shuts the session down
    have hturn : t = u.awaitPump index := by
      have hon : ∀ stage, (u.awaitPump index).calls = u.calls.modify index (·.atStage stage) →
          (u.awaitPump index).isOverdue index = false := by
        intro stage heq
        rw [isOverdue, heq, getElem?_modify_self hcall']
        exact Bool.and_false _
      have hlate : (u.awaitPump index).isOverdue index = false := by
        rcases awaitPump_cases u index with ⟨-, -, heq⟩ | ⟨-, heq⟩
        · exact hon _ heq
        · exact hon _ heq
      rw [← Option.some.inj hstep, hu, Session.turn, hcall']
      show (if (u.awaitPump index).isOverdue index then _ else u.awaitPump index) = _
      rw [hlate]
      rfl
    rcases awaitPump_cases u index with ⟨hover, hhushed, heq⟩ | ⟨hover, heq⟩
    · refine .inr (.inr ⟨?_, hturn ▸ hhushed, hpump ▸ hover⟩)
      rw [hturn, heq, getElem?_modify_self hcall', hnow]
      rfl
    · refine absurd ?_ hchanged
      rw [hturn, heq, getElem?_modify_self hcall']
      rfl
  | _ => exact absurd hown id

/-- Who shuts the session down has made the call, or had made it before. -/
theorem call_of_step? (hs : s.Reachable) (hstep : s.step? action = some t)
    (hcall : t.calls[i]? = some call) :
    (∃ before, s.calls[i]? = some before ∧ before.request = call.request) ∨
      action = .call call.request ∧ i = s.calls.length := by
  rcases hbefore : s.calls[i]? with _ | before
  · have hchanged : t.calls[i]? ≠ s.calls[i]? := by
      rw [hcall, hbefore]
      nofun
    have hown : s.IsOwn i action := by
      by_contra hown
      obtain ⟨j, hji, hactor⟩ := exists_isActor_ne hown
      exact hchanged ((moves_of_isActor hactor hstep).getElem?_of_ne hji)
    rcases own_of_nobody hstep hown hbefore with ⟨request, rfl, rfl⟩ | ⟨ready, rfl⟩
    · obtain ⟨entered, hentered, hrequest, -⟩ := exists_call_of_step? hs hstep
      obtain rfl := Option.some.inj (hcall.symm.trans hentered)
      exact .inr ⟨by rw [hrequest], rfl⟩
    · exact absurd rfl hchanged
  · exact .inl ⟨before, rfl, ((Later.of_step? hstep).request_eq hbefore hcall).symm⟩

/-- Once somebody has shut the session down, the pump has been told to stop. -/
theorem cancelled_of_shutdown (hs : s.Reachable) (hcall : s.calls[i]? = some call)
    (hrequest : call.request = .shutdown) : s.cancelled = true := by
  obtain ⟨settings, s₀, actions, h₀, hrun⟩ := hs
  induction actions using List.reverseRecOn generalizing s call with
  | nil =>
    obtain rfl : s₀ = s := by simpa using hrun
    rw [eq_of_ofSettings h₀, List.getElem?_nil] at hcall
    cases hcall
  | append_singleton earlier action ih =>
    obtain ⟨u, hearlier, hstep⟩ := run?_concat_eq_some.1 hrun
    rcases call_of_step? ⟨settings, s₀, earlier, h₀, hearlier⟩ hstep hcall with
      ⟨before, hbefore, hsame⟩ | ⟨rfl, -⟩
    · exact (Lasting.of_step? hstep).cancelled (ih hbefore (hsame.trans hrequest) hearlier)
    · rw [hrequest] at hstep
      exact (unmoved_of_shutdown hstep).cancelled

/-- A call that is over stays as it is. -/
theorem over_of_step? (hstep : s.step? action = some t) (hcall : s.calls[i]? = some call)
    (hover : call.stage.isOver = true) : t.calls[i]? = some call := by
  obtain ⟨call', hcall', -, hsame, -⟩ := (Later.of_step? hstep).call i call hcall
  rwa [hsame hover] at hcall'

/-! ### The pump that they wait for -/

/-- The pump has closed the link, or one of the first `n` calls has shut the session down and waits
for the pump, or has given that up. -/
def Awaited (s : Session) (n : Nat) : Prop :=
  s.pumpState = .closed ∨ ∃ j < n,
    s.calls[j]? = some (shutdownAt .forPump) ∨ s.calls[j]? = some (shutdownAt .dropped)

theorem Awaited.mono (h : s.Awaited n) {n' : Nat} (hle : n ≤ n') : s.Awaited n' :=
  h.imp_right fun ⟨j, hlt, hstage⟩ => ⟨j, Nat.lt_of_lt_of_le hlt hle, hstage⟩

/-- Whoever has waited for the pump until now still does, or finds that it has closed the link. -/
theorem Awaited.step (h : s.Awaited n) (hfree : s.pumpState ≠ .cutOff)
    (hstep : s.step? action = some t) : t.Awaited n := by
  rcases h with hclosed | ⟨j, hlt, hwaits | hdropped⟩
  · exact .inl (closed_of_step? hstep hclosed)
  · rcases waiting_of_step? hstep hwaits with hsame | hdropped | ⟨-, -, hover⟩
    · exact .inr ⟨j, hlt, .inl hsame⟩
    · exact .inr ⟨j, hlt, .inr hdropped⟩
    · exact .inl (closed_of_step? hstep (PumpState.eq_closed hover hfree))
  · exact .inr ⟨j, hlt, .inr (over_of_step? hstep hdropped rfl)⟩

/-- How far a call has come that shuts the session down. -/
inductive Shut (s : Session) (i : Nat) : Call → Prop
  | waiting : Shut s i (shutdownAt .forPump)
  | dropped : Shut s i (shutdownAt .dropped)
  | ended (time : Nat) (hushed : s.Hushed) (hpump : s.Awaited i) :
    Shut s i (shutdownAt (.ended time (.ok .finished)))

/-- How the calls that shut a session down and its pump belong together. -/
structure ShutSound (s : Session) : Prop where
  /-- Only a pump is cut off for which nobody waits. -/
  cut : s.pumpState = .cutOff → s.joinable = true ∧ s.released = true
  joined : s.joinable = false → s.Awaited s.calls.length
  calls : ∀ (i : Nat) (call : Call), s.calls[i]? = some call → call.request = .shutdown →
    s.joinable = false ∧ s.Shut i call

namespace ShutSound

theorem ofSettings {settings : Settings} (h : ofSettings settings = .ok s) : s.ShutSound := by
  rw [eq_of_ofSettings h]
  refine ⟨nofun, nofun, fun i call hcall => ?_⟩
  rw [List.getElem?_nil] at hcall
  cases hcall

theorem not_cut (h : s.ShutSound) (hjoined : s.joinable = false) : s.pumpState ≠ .cutOff := by
  intro hcut
  rw [(h.cut hcut).1] at hjoined
  cases hjoined

theorem closed_of_isOver (h : s.ShutSound) (hjoined : s.joinable = false)
    (hover : s.pumpState.isOver = true) : s.pumpState = .closed :=
  PumpState.eq_closed hover (h.not_cut hjoined)

/-- What a call that was there before has come to. -/
theorem shut_of_step? (h : s.ShutSound) (hstep : s.step? action = some t)
    (hjoined : s.joinable = false) (hcall : s.calls[i]? = some call) (hshut : s.Shut i call)
    {call' : Call} (hcall' : t.calls[i]? = some call') : t.Shut i call' := by
  have hcut := h.not_cut hjoined
  cases hshut with
  | waiting =>
    rcases waiting_of_step? hstep hcall with heq | heq | ⟨heq, hhushed, hover⟩
    · obtain rfl := Option.some.inj (hcall'.symm.trans heq)
      exact .waiting
    · obtain rfl := Option.some.inj (hcall'.symm.trans heq)
      exact .dropped
    · obtain rfl := Option.some.inj (hcall'.symm.trans heq)
      exact .ended _ hhushed (.inl (closed_of_step? hstep (h.closed_of_isOver hjoined hover)))
  | dropped =>
    obtain rfl := Option.some.inj (hcall'.symm.trans (over_of_step? hstep hcall rfl))
    exact .dropped
  | ended time hhushed hpump =>
    obtain rfl := Option.some.inj (hcall'.symm.trans (over_of_step? hstep hcall rfl))
    exact .ended time (hhushed.step hstep) (hpump.step hcut hstep)

/-- Who shuts the session down waits for the pump, or is told at once that the session is over. -/
theorem shut_of_shutdown (h : s.ShutSound) (hstep : s.step? (.call .shutdown) = some t) :
    t.calls = s.calls ++ [shutdownAt .forPump] ∨
      ∃ time, t.calls = s.calls ++ [shutdownAt (.ended time (.ok .finished))] ∧ t.Hushed ∧
        t.Awaited s.calls.length := by
  have hcut : s.pumpState ≠ .cutOff := by
    intro hcut
    have hkept := (eq_of_shutdown hstep).1
    rw [(h.cut hcut).2] at hkept
    cases hkept
  rcases calls_of_shutdown hstep with ⟨heq, -, -⟩ | ⟨heq, hhushed, hjoined | hover⟩
  · exact .inl heq
  · exact .inr ⟨_, heq, hhushed, (h.joined hjoined).step hcut hstep⟩
  · exact .inr ⟨_, heq, hhushed, .inl (closed_of_step? hstep (PumpState.eq_closed hover hcut))⟩

theorem step (h : s.ShutSound) (hs : s.Reachable)
    (hquiet : ∀ l ∈ s.lifecycle.listeners, l.panics = false) (hstep : s.step? action = some t) :
    t.ShutSound := by
  have hlength : s.calls.length ≤ t.calls.length := by
    by_contra hlt
    have hsome := List.getElem?_eq_getElem (l := s.calls) (Nat.lt_of_not_le hlt)
    obtain ⟨call', hcall', -⟩ := (Later.of_step? hstep).call _ _ hsome
    rw [List.getElem?_eq_none (Nat.le_refl _)] at hcall'
    cases hcall'
  refine ⟨?_, ?_, ?_⟩
  · intro hcut
    have hold : s.pumpState = .cutOff → t.joinable = true ∧ t.released = true := by
      intro hcut
      obtain ⟨hfree, hreleased⟩ := h.cut hcut
      have hcall : action ≠ .call .shutdown := by
        rintro rfl
        rw [step?, if_pos hreleased] at hstep
        cases hstep
      obtain ⟨hjoinable, hkept⟩ := joinable_of_step? hstep hcall
      exact ⟨hjoinable.trans hfree, hkept hreleased⟩
    cases hround : action.isRound with
    | false =>
      rcases pumpState_of_not_isRound hstep hround with heq | ⟨-, -, hreleased, hfree⟩
      · exact hold (heq.symm.trans hcut)
      · exact ⟨hfree, hreleased⟩
    | true =>
      rcases pumpState_of_isRound hstep hround with ⟨-, hover⟩ | hclosed | ⟨-, -, hb⟩
      · rw [hcut] at hover
        cases hover
      · rw [hcut] at hclosed
        cases hclosed
      · rw [breaksOff_eq_false hquiet] at hb
        cases hb
  · intro hjoined
    by_cases hcall : action = .call .shutdown
    · subst hcall
      rcases h.shut_of_shutdown hstep with heq | ⟨time, heq, -, hpump⟩
      · refine .inr ⟨s.calls.length, ?_, .inl ?_⟩
        · rw [heq]
          simp
        · rw [heq, List.getElem?_concat_length]
      · exact hpump.mono hlength
    · have hjoined' : s.joinable = false := (joinable_of_step? hstep hcall).1.symm.trans hjoined
      exact ((h.joined hjoined').step (h.not_cut hjoined') hstep).mono hlength
  · intro i call' hcall' hrequest
    rcases call_of_step? hs hstep hcall' with ⟨call, hcall, hsame⟩ | ⟨rfl, rfl⟩
    · obtain ⟨hjoined, hshut⟩ := h.calls i call hcall (hsame.trans hrequest)
      exact ⟨(Lasting.of_step? hstep).joined hjoined,
        h.shut_of_step? hstep hjoined hcall hshut hcall'⟩
    · rw [hrequest] at hstep
      refine ⟨(unmoved_of_shutdown hstep).joinable, ?_⟩
      rcases h.shut_of_shutdown hstep with heq | ⟨time, heq, hhushed, hpump⟩
      · rw [heq, List.getElem?_concat_length] at hcall'
        rw [← Option.some.inj hcall']
        exact .waiting
      · rw [heq, List.getElem?_concat_length] at hcall'
        rw [← Option.some.inj hcall']
        exact .ended time hhushed hpump

theorem of_run? {settings : Settings} (h₀ : Session.ofSettings settings = .ok s₀)
    (hrun : s₀.run? actions = some s)
    (hquiet : ∀ listener, .listen listener ∈ actions → listener.panics = false) :
    s.ShutSound := by
  induction actions using List.reverseRecOn generalizing s with
  | nil =>
    obtain rfl : s₀ = s := by simpa using hrun
    exact .ofSettings h₀
  | append_singleton before action ih =>
    obtain ⟨u, hbefore, hstep⟩ := run?_concat_eq_some.1 hrun
    have hquiet' : ∀ listener, .listen listener ∈ before → listener.panics = false :=
      fun listener hmem => hquiet listener (List.mem_append_left _ hmem)
    exact (ih hbefore hquiet').step ⟨settings, s₀, before, h₀, hbefore⟩
      (quiet_of_run? h₀ hbefore hquiet') hstep

end ShutSound

/-! ### A pump that has been told to stop -/

/-- A pump that has been told to stop begins no new rest. -/
theorem pumpState_of_cancelled (hcancel : s.cancelled = true) (hrun : s.run? actions = some t) :
    t.pumpState.isOver = true ∨ t.pumpState = s.pumpState := by
  induction actions generalizing s with
  | nil =>
    obtain rfl : s = t := by simpa using hrun
    exact .inr rfl
  | cons action actions ih =>
    obtain ⟨u, hstep, hrest⟩ := run?_cons_eq_some.1 hrun
    have hover : u.pumpState.isOver = true → t.pumpState.isOver = true :=
      (Grown.of_run? hrest).stopped
    have hsame : u.pumpState = s.pumpState →
        t.pumpState.isOver = true ∨ t.pumpState = s.pumpState := by
      intro heq
      rw [← heq]
      exact ih ((Lasting.of_step? hstep).cancelled hcancel) hrest
    cases hround : action.isRound with
    | false =>
      rcases pumpState_of_not_isRound hstep hround with heq | ⟨heq, -⟩
      · exact hsame heq
      · exact .inl (hover (by rw [heq]; rfl))
    | true =>
      rcases pumpState_of_isRound hstep hround with ⟨hgoing, -⟩ | hclosed | ⟨-, hgoing, -⟩
      · rw [hgoing.1] at hcancel
        cases hcancel
      · exact .inl (hover (by rw [hclosed]; rfl))
      · rw [hgoing.1] at hcancel
        cases hcancel

/-- A pump that has been told to stop does so as soon as it has had its rest. -/
theorem over_of_cancelled (hs : s.Reachable) (hcancel : s.cancelled = true)
    (hrun : s.run? actions = some t) (hlate : s.now + Pump.restTime ≤ t.now)
    (hwant : t.want ≠ .stop) : t.pumpState.isOver = true := by
  by_contra hgoing
  rw [Bool.not_eq_true] at hgoing
  have hsame : t.pumpState = s.pumpState := by
    refine (pumpState_of_cancelled hcancel hrun).resolve_left ?_
    rw [hgoing]
    exact Bool.false_ne_true
  have hwants : t.want ≠ .nothing := by
    refine want_ne_nothing hgoing fun wakeAt hrest => ?_
    have hle := RestsBriefly.of_reachable hs wakeAt (hsame.symm.trans hrest)
    omega
  refine hwant ?_
  rw [want_eq hwants, if_pos ((Lasting.of_run? hrun).cancelled hcancel)]

/-! ### Once more when all is over -/

/-- Closing what is closed ends subscriptions at most. -/
theorem Finished.closeHub_eq (h : s.Finished) : ∃ ready,
    (s.closeOutstanding .dead).closeHub =
      { s with hub := { s.hub with subscribed := [] }, ready } := by
  obtain ⟨ready, heq, -⟩ := closeOutstanding_eq s .dead
  refine ⟨ready, ?_⟩
  rw [heq, Outstanding.close_eq h.silent h.nobody, lastReplies, h.nobody, List.map_nil,
    List.append_nil, Session.closeHub, EventHub.close, Broadcast.close_eq h.streamClosed]

/-- A call that ends before it has anything gives up nothing. -/
theorem finish_inLine (result : Except Error Outcome) (hcall : s.calls[i]? = some call)
    (hstage : call.stage = .inLine) (hline : i ∉ s.line) (hkept : s.released = false) : ∃ ready,
    s.finish i result =
      { s with calls := s.calls.modify i (·.atStage (.ended s.now result)), ready } := by
  obtain ⟨ready, heq, -⟩ := relinquish_eq s i .inLine
  refine ⟨ready, ?_⟩
  rw [finish, stage?_eq hcall, hstage]
  show Session.takeDownIfUnused (Session.setStage (s.relinquish i .inLine) i _) = _
  rw [heq, List.erase_of_not_mem hline, takeDownIfUnused]
  show (if s.released && _ && _ then _ else _) = _
  rw [hkept]
  rfl

/-- Who shuts the session down when the pump has closed the link and somebody has waited for that
changes nothing that anybody could still miss. -/
theorem shutdown_of_closed (hs : s.Reachable) (hclosed : s.pumpState = .closed)
    (hcancel : s.cancelled = true) (hjoined : s.joinable = false)
    (hstep : s.step? (.call .shutdown) = some t) : ∃ ready alarms, t =
      { s with
        calls := s.calls ++ [shutdownAt (.ended s.now (.ok .finished))]
        lifecycle := s.lifecycle.stop.2
        hub := { s.hub with subscribed := [] }
        ready
        alarms } := by
  have hline : s.calls.length ∉ s.line := by
    intro hmem
    obtain ⟨call, hcall, -⟩ := ((LineSound.of_reachable hs).mem _).1 hmem
    rw [List.getElem?_eq_none (Nat.le_refl _)] at hcall
    cases hcall
  obtain ⟨hkept, alarms, ready, u, hu, ⟨hfree, -⟩ | ⟨-, ht⟩⟩ := eq_of_shutdown hstep
  · rw [hjoined] at hfree
    cases hfree
  rw [← hcancel] at hu
  have hfinished : u.Finished := by
    rw [hu]
    exact { Finished.of_reachable hs hclosed with dead := rfl }
  obtain ⟨ready', hclose⟩ := hfinished.closeHub_eq
  rw [hclose, hu] at ht
  obtain ⟨ready'', hend⟩ := finish_inLine
    (s := { s with
      calls := s.calls ++ [shutdownAt .inLine]
      lifecycle := s.lifecycle.stop.2
      hub := { s.hub with subscribed := [] }
      alarms
      ready := ready' }) (.ok .finished) List.getElem?_concat_length rfl hline hkept
  rw [modify_concat] at hend
  exact ⟨ready'', alarms, ht.trans hend⟩

/-! ### What shutting down comes to -/

/-- What holds once a call that shuts the session down has ended. -/
theorem ShutSound.of_ended (h : s.ShutSound) (hs : s.Reachable) (hcall : s.calls[i]? = some call)
    (hrequest : call.request = .shutdown) {time : Nat} {result : Except Error Outcome}
    (hstage : call.stage = .ended time result) :
    result = .ok .finished ∧ s.isAlive = false ∧ s.pending = 0 ∧
      s.hub.stream.closed = true ∧ s.Awaited i := by
  have hdead := (LifeSound.of_reachable hs).dead_of_cancelled
    (cancelled_of_shutdown hs hcall hrequest)
  cases (h.calls i call hcall hrequest).2 with
  | waiting => cases hstage
  | dropped => cases hstage
  | ended time' hhushed hpump =>
    refine ⟨?_, by rw [isAlive, hdead, Bool.not_true], ?_, hhushed.streamClosed, hpump⟩
    · exact (Stage.ended.inj hstage).2.symm
    · rw [pending, Outstanding.size, (WaitersSound.of_reachable hs).empty hhushed.silent,
        List.length_nil]

/-- A call that shuts the session down is over once the pump has had the time for its rest and all
have taken their turns. -/
theorem ShutSound.over_of_rested (h : t.ShutSound) (hs : s.Reachable)
    (hcall : s.calls[i]? = some call) (hrequest : call.request = .shutdown)
    (hrun : s.run? actions = some t)
    (hlate : s.now + Pump.restTime ≤ t.now) (hwant : t.want ≠ .stop)
    (hready : ∀ j, .caller j ∉ t.ready) :
    t.pumpState = .closed ∧ ∃ call', t.calls[i]? = some call' ∧
      (call'.stage = .dropped ∨ ∃ time, call'.stage = .ended time (.ok .finished)) := by
  have ht : t.Reachable := hs.run hrun
  obtain ⟨call', hcall', hrequest', -⟩ := (Later.of_run? hrun).call i call hcall
  obtain ⟨hjoined, hshut⟩ := h.calls i call' hcall' (hrequest'.trans hrequest)
  have hover := over_of_cancelled hs (cancelled_of_shutdown hs hcall hrequest) hrun hlate
    hwant
  have hclosed := h.closed_of_isOver hjoined hover
  refine ⟨hclosed, call', hcall', ?_⟩
  cases hshut with
  | waiting =>
    rcases over_or_held (Finished.of_reachable ht hclosed).isClosed ht hready hcall' with
      hdone | hheld
    · cases hdone
    · rw [isHeld, stage?_eq hcall'] at hheld
      cases hheld
  | dropped => exact .inl rfl
  | ended time hhushed hpump => exact .inr ⟨time, rfl⟩

/-- **Shutting down.** However often and whenever a session is shut down, with no listener that
breaks off the telling: a call that has ended has ended well, and from then on the session is not
alive, nobody waits for a response, the stream is closed, and the pump has closed the link unless a
call that was made earlier to shut the session down still waits for the pump or has been given up.
As soon as the pump has had the time for its rest, and it and all callers have taken the turns that
they have a reason to take, the pump has closed the link, and every such call has ended well or was
given up. And when the pump has closed the link and somebody has shut the session down before, to do
so once more adds the call and changes nothing but who listens and who is subscribed. -/
theorem shutdown_waits_once {settings : Settings} (h₀ : ofSettings settings = .ok s₀)
    (hrun : s₀.run? actions = some s)
    (hquiet : ∀ listener, .listen listener ∈ actions → listener.panics = false) :
    (∀ (i : Nat) (call : Call) (time : Nat) (result : Except Error Outcome),
      s.calls[i]? = some call → call.request = .shutdown → call.stage = .ended time result →
      result = .ok .finished ∧ s.isAlive = false ∧ s.pending = 0 ∧ s.hub.stream.closed = true ∧
      (s.pumpState = .closed ∨ ∃ j < i, s.calls[j]? = some ⟨.shutdown, none, .forPump⟩ ∨
        s.calls[j]? = some ⟨.shutdown, none, .dropped⟩)) ∧
    (∀ (i : Nat) (call : Call), s.calls[i]? = some call → call.request = .shutdown →
      ∀ later t, s.run? later = some t →
      (∀ listener, .listen listener ∈ later → listener.panics = false) →
      s.now + Pump.restTime ≤ t.now → t.want ≠ .stop → (∀ j, .caller j ∉ t.ready) →
      t.pumpState = .closed ∧ ∃ call', t.calls[i]? = some call' ∧
        (call'.stage = .dropped ∨ ∃ time, call'.stage = .ended time (.ok .finished))) ∧
    ∀ t, s.pumpState = .closed → (∃ call ∈ s.calls, call.request = .shutdown) →
      s.step? (.call .shutdown) = some t → ∃ ready alarms, t =
        { s with
          calls := s.calls ++ [⟨.shutdown, none, .ended s.now (.ok .finished)⟩]
          lifecycle := s.lifecycle.stop.2
          hub := { s.hub with subscribed := [] }
          ready
          alarms } := by
  have hs : s.Reachable := ⟨settings, s₀, actions, h₀, hrun⟩
  have hsound := ShutSound.of_run? h₀ hrun hquiet
  refine ⟨?_, ?_, ?_⟩
  · exact fun i call time result hcall hrequest hstage => hsound.of_ended hs hcall hrequest hstage
  · intro i call hcall hrequest later t hlater hquiet' hlate hwant hready
    have ht : t.ShutSound := .of_run? h₀ (run?_append hrun hlater) fun listener hmem =>
      (List.mem_append.1 hmem).elim (hquiet listener) (hquiet' listener)
    exact ht.over_of_rested hs hcall hrequest hlater hlate hwant hready
  · rintro t hclosed ⟨call, hmem, hrequest⟩ hstep
    obtain ⟨i, hcall⟩ := List.getElem?_of_mem hmem
    exact shutdown_of_closed hs hclosed (cancelled_of_shutdown hs hcall hrequest)
      (hsound.calls i call hcall hrequest).1 hstep

/-- Two who shut the session down while the pump rests after a failed read. -/
def hasty : List Action :=
  [.call (.exchange (.bare 0x00 0x01) none), .write (.ok ()), .read (.failed (.link "glitch")),
    .call .shutdown, .call .shutdown]

/-- The second is told at once that the session is over, with the link still open. Ten milliseconds
later the pump closes it, and the first is told, too. -/
theorem shutdown_waits_once_hasty : ∃ s₀ s t, ofSettings {} = .ok s₀ ∧ s₀.run? hasty = some s ∧
    s.stage? 2 = some (.ended 0 (.ok .finished)) ∧ s.pumpState = .resting 10 ∧
    s.isAlive = false ∧ s.pending = 0 ∧ s.stage? 1 = some .forPump ∧
    s.run? [.pass 10, .halt, .turn 1, .turn 0] = some t ∧ t.pumpState = .closed ∧
    t.stage? 1 = some (.ended 10 (.ok .finished)) := by
  have hshut : ∀ {s₀ s t : Session} {call : Call}, ofSettings {} = .ok s₀ →
      s₀.run? hasty = some s → s.calls[2]? = some call → call.request = .shutdown →
      call.stage = .ended 0 (.ok .finished) → s.now = 0 →
      s.run? [.pass 10, .halt, .turn 1, .turn 0] = some t → t.now = 10 → t.want = .nothing →
      t.ready = [.pump] →
      s.isAlive = false ∧ s.pending = 0 ∧ t.pumpState = .closed := by
    intro s₀ s t call h₀ hrun hcall hrequest hstage hnow hlater hlate hwant hready
    obtain ⟨hended, hends, -⟩ := shutdown_waits_once h₀ hrun (by simp [hasty])
    obtain ⟨-, hdead, hpending, -⟩ := hended 2 call 0 _ hcall hrequest hstage
    have hclosed := (hends 2 call hcall hrequest _ t hlater (by simp)
      (by rw [hnow, hlate]; decide) (by rw [hwant]; nofun) (by rw [hready]; simp)).1
    exact ⟨hdead, hpending, hclosed⟩
  have h₀ : ofSettings {} = .ok _ := rfl
  obtain ⟨hdead, hpending, hclosed⟩ := hshut h₀ (Option.some_get (by decide +kernel)).symm
    (Option.some_get (by decide +kernel)).symm (by decide +kernel) (by decide +kernel)
    (by decide +kernel) (Option.some_get (by decide +kernel)).symm (by decide +kernel)
    (by decide +kernel) (by decide +kernel)
  refine ⟨_, _, _, h₀, (Option.some_get _).symm, ?_, ?_, hdead, hpending, ?_,
    (Option.some_get _).symm, hclosed, ?_⟩
  all_goals decide +kernel

end Session

end BleHost
