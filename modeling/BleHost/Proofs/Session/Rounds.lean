import BleHost.Proofs.Session.Ending
import BleHost.Proofs.Session.Handling
import BleHost.Proofs.Session.Intake

/-!
# What a round of the pump comes to

A round ends the pump because it has been told to stop, or the pump tries to write or to read, and
then goes on, or gives up (`Round`). A pump that is at work rests for a moment at most
(`RestsBriefly`); one that is over takes no round any more (`not_isRound_of_over`).
-/

namespace BleHost

namespace Session

variable {s t u w : Session} {action : Action} {actions : List Action} {cause : String}

/-! ### Parts of a round -/

theorem foldl_route_eq (s : Session) (frames : List Frame) : ∃ outstanding news hub ready,
    frames.foldl route s = { s with outstanding, replies := s.replies ++ news, hub, ready } := by
  induction frames generalizing s with
  | nil => exact ⟨s.outstanding, [], s.hub, s.ready, by simp⟩
  | cons frame frames ih =>
    obtain ⟨outstanding, news, hub, ready, hroute, -⟩ := route_eq s frame
    obtain ⟨outstanding', news', hub', ready', heq⟩ := ih (s.route frame)
    refine ⟨outstanding', news ++ news', hub', ready', ?_⟩
    rw [List.foldl_cons, heq, hroute]
    simp

/-- A pump that goes on is not over, and rests for a moment at most. -/
theorem obey_eq {verdict : Verdict} (s : Session) (h : ∀ cause, verdict ≠ .giveUp cause) :
    ∃ pumpState alarms, s.obey verdict = { s with pumpState, alarms } ∧ pumpState.isOver = false ∧
      ∀ wakeAt, pumpState = .resting wakeAt → wakeAt = s.now + Pump.restTime := by
  cases verdict with
  | goOn => exact ⟨.running, s.alarms, rfl, rfl, nofun⟩
  | rest =>
    refine ⟨.resting (s.now + Pump.restTime), s.alarms.erase .pump ++ [.pump], rfl, rfl, ?_⟩
    intro wakeAt hrest
    exact (PumpState.resting.inj hrest).symm
  | giveUp cause => exact absurd rfl (h cause)

/-- When no listener breaks it off, everybody is told, and the pump closes the link. -/
theorem giveUp_eq (cause : String) (hb : s.lifecycle.breaksOff = false) : ∃ ready, s.giveUp cause =
    { s with
      lifecycle := s.lifecycle.terminate (.linkLost cause)
      outstanding := s.outstanding.close
      replies := s.replies ++ lastReplies s.outstanding (.linkLost cause)
      pumpState := .closed
      outbound := s.outbound.close
      receipts := s.receipts ++ lastReceipts s.outbound
      hub := s.hub.close
      ready } := by
  obtain ⟨ready, heq, -⟩ := closeOutstanding_conclude_eq
    { s with lifecycle := s.lifecycle.terminate (.linkLost cause) } (.linkLost cause)
  refine ⟨ready, ?_⟩
  unfold giveUp
  dsimp only
  rw [if_neg (by rw [hb]; exact Bool.false_ne_true), heq]

/-- A listener that breaks off the telling cuts the pump off. -/
theorem giveUp_eq_of_breaksOff (cause : String) (hb : s.lifecycle.breaksOff = true) :
    ∃ ready, s.giveUp cause = { s with
      lifecycle := s.lifecycle.terminate (.linkLost cause)
      pumpState := .cutOff
      outbound := s.outbound.close
      receipts := s.receipts ++ lastReceipts s.outbound
      ready } := by
  obtain ⟨ready, heq, -⟩ :=
    cutOff_wakeWhere_eq { s with lifecycle := s.lifecycle.terminate (.linkLost cause) }
  refine ⟨ready, ?_⟩
  unfold giveUp
  dsimp only
  rw [if_pos hb]
  exact heq

/-- What giving up comes to, whether or not somebody breaks it off. -/
structure GivesUp (s : Session) (cause : String) (t : Session) : Prop where
  lifecycle : t.lifecycle = s.lifecycle.terminate (.linkLost cause)
  isOver : t.pumpState.isOver = true
  cancelled : t.cancelled = s.cancelled
  joinable : t.joinable = s.joinable
  released : t.released = s.released
  takenDown : t.takenDown = s.takenDown

theorem giveUp_spec (s : Session) (cause : String) : GivesUp s cause (s.giveUp cause) := by
  cases hb : s.lifecycle.breaksOff with
  | false =>
    obtain ⟨ready, heq⟩ := giveUp_eq cause hb
    rw [heq]
    exact ⟨rfl, rfl, rfl, rfl, rfl, rfl⟩
  | true =>
    obtain ⟨ready, heq⟩ := giveUp_eq_of_breaksOff cause hb
    rw [heq]
    exact ⟨rfl, rfl, rfl, rfl, rfl, rfl⟩

/-! ### Rounds -/

/-- The pump has tried to write or to read, and has handed out what it has read. -/
structure Attempted (s : Session) (action : Action) (w : Session) : Prop where
  unmoved : Unmoved s w
  pump : w.pump = s.pumpAfter action
  now : w.now = s.now
  calls : w.calls = s.calls
  receipts : w.receipts = s.receipts ++ s.written action
  idle : s.handouts action = [] →
    w.outstanding = s.outstanding ∧ w.replies = s.replies ∧ w.hub = s.hub

/-- What a round comes to. -/
inductive Round (s : Session) (action : Action) (t : Session) : Prop
  | halted (haction : action = .halt) (hcancel : s.cancelled = true)
    (hrun : s.pumpState.isOver = false) (ht : t = s.halt)
  | wentOn {w : Session} {verdict : Verdict} (hrun : s.IsRunning)
    (hverdict : s.verdict? action = some verdict) (hno : ∀ cause, verdict ≠ .giveUp cause)
    (hw : Attempted s action w) (ht : t = w.obey verdict)
  | gaveUp {w : Session} {cause : String} (hrun : s.IsRunning)
    (hverdict : s.verdict? action = some (.giveUp cause)) (hw : Attempted s action w)
    (hidle : w.outstanding = s.outstanding ∧ w.replies = s.replies ∧ w.hub = s.hub)
    (ht : t = w.giveUp cause)

theorem attempted_write {frame : Outgoing} {outcome : Except Error Unit}
    (hwant : s.want = .write frame) :
    Attempted s (.write outcome) (Session.note
      (Session.regrant { s with pump := (s.pump.wrote s.settings.maxFailures outcome).1 }
        s.outbound.pop) frame.ticket outcome) := by
  obtain ⟨hrun, frames, hqueued⟩ := isRunning_of_write hwant
  obtain ⟨r, hgrant, -⟩ := regrant_eq
    { s with pump := (s.pump.wrote s.settings.maxFailures outcome).1 } s.outbound.pop
  obtain ⟨ready, hnote, -⟩ := note_eq (Session.regrant
    { s with pump := (s.pump.wrote s.settings.maxFailures outcome).1 } s.outbound.pop)
      frame.ticket outcome
  rw [hgrant] at hnote
  rw [hgrant, hnote]
  refine ⟨⟨rfl, rfl, rfl, rfl, rfl, rfl⟩, rfl, rfl, rfl, ?_, fun _ => ⟨rfl, rfl, rfl⟩⟩
  rw [written, hqueued]
  rfl

theorem attempted_read (s : Session) (outcome : ReadOutcome) :
    Attempted s (.read outcome) ((s.pump.read s.settings.maxFailures outcome).2.1.foldl route
      { s with pump := (s.pump.read s.settings.maxFailures outcome).1 }) := by
  obtain ⟨outstanding, news, hub, ready, heq⟩ := foldl_route_eq
    { s with pump := (s.pump.read s.settings.maxFailures outcome).1 }
      (s.pump.read s.settings.maxFailures outcome).2.1
  have hfields : ∀ v : Session, v =
      { s with
        pump := (s.pump.read s.settings.maxFailures outcome).1
        outstanding
        replies := s.replies ++ news
        hub
        ready } →
      (s.handouts (.read outcome) = [] →
        v.outstanding = s.outstanding ∧ v.replies = s.replies ∧ v.hub = s.hub) →
      Attempted s (.read outcome) v := by
    intro v hv hidle
    rw [hv] at hidle ⊢
    exact ⟨⟨rfl, rfl, rfl, rfl, rfl, rfl⟩, rfl, rfl, rfl, (List.append_nil _).symm, hidle⟩
  refine hfields _ heq fun hnone => ?_
  have hframes : (s.pump.read s.settings.maxFailures outcome).2.1 = [] := by
    have hmap := congrArg (List.map Prod.snd) hnone
    rwa [handouts, map_snd_handOut, List.map_nil] at hmap
  rw [hframes]
  exact ⟨rfl, rfl, rfl⟩

/-- Every round is one of the three. -/
theorem round_of_step? (hstep : s.step? action = some t) (hround : action.isRound = true) :
    Round s action t := by
  have htried : ∀ {verdict : Verdict} {w : Session}, s.IsRunning →
      s.verdict? action = some verdict → Attempted s action w →
      (∀ cause, verdict = .giveUp cause → s.handouts action = []) → t = w.obey verdict →
      Round s action t := by
    intro verdict w hrun hverdict hw hnone ht
    cases verdict with
    | goOn => exact .wentOn hrun hverdict (fun _ => nofun) hw ht
    | rest => exact .wentOn hrun hverdict (fun _ => nofun) hw ht
    | giveUp cause => exact .gaveUp hrun hverdict hw (hw.idle (hnone cause rfl)) ht
  cases action with
  | halt =>
    simp only [step?] at hstep
    split at hstep
    · rename_i hwant
      obtain ⟨hcancel, hrun⟩ := cancelled_of_stop hwant
      exact .halted rfl hcancel hrun (Option.some.inj hstep).symm
    · cases hstep
  | write outcome =>
    simp only [step?] at hstep
    split at hstep
    · rename_i frame hwant
      exact htried (isRunning_of_write hwant).1 rfl (attempted_write hwant) (fun _ _ => rfl)
        (Option.some.inj hstep).symm
    · cases hstep
  | read outcome =>
    simp only [step?] at hstep
    split at hstep
    · rename_i hwant
      refine htried (isRunning_of_read hwant) rfl (attempted_read s outcome) ?_
        (Option.some.inj hstep).symm
      intro cause hverdict
      show Session.handOut _ (s.pump.read s.settings.maxFailures outcome).2.1 = []
      rw [Pump.frames_eq_nil hverdict]
      rfl
    · cases hstep
  | _ => cases hround

/-- Only of a round there is a verdict. -/
theorem isRound_of_verdict? {verdict : Verdict} (h : s.verdict? action = some verdict) :
    action.isRound = true := by
  cases action with
  | write outcome => rfl
  | read outcome => rfl
  | _ => cases h

/-! ### What rounds say of the pump -/

/-- Only rounds change what the pump has in hand. -/
theorem pump_of_step? (hlife : s.LifeSound) (hstep : s.step? action = some t) :
    t.pump = s.pumpAfter action := by
  have hlife' : LifeSound { s with pump := s.pumpAfter action } := { hlife with }
  have hintake := (moves_of_step? hstep).intake_eq hlife'
  simp only [Intake, Prod.mk.injEq] at hintake
  exact hintake.2.2.2

/-- A pump that is over takes no round any more. -/
theorem not_isRound_of_over (hover : s.pumpState.isOver = true)
    (hstep : s.step? action = some t) : action.isRound = false := by
  cases hround : action.isRound with
  | false => rfl
  | true =>
    cases round_of_step? hstep hround with
    | halted haction hcancel hrun ht => rw [hover] at hrun; cases hrun
    | wentOn hrun hverdict hno hw ht => rw [hrun.2] at hover; cases hover
    | gaveUp hrun hverdict hw hidle ht => rw [hrun.2] at hover; cases hover

theorem not_isRound_of_over_of_run (hover : s.pumpState.isOver = true)
    (hrun : s.run? actions = some t) : ∀ action ∈ actions, action.isRound = false := by
  induction actions generalizing s with
  | nil => exact fun action h => absurd h List.not_mem_nil
  | cons action actions ih =>
    obtain ⟨u, hstep, hrest⟩ := run?_cons_eq_some.1 hrun
    intro action' hmem
    rcases List.mem_cons.1 hmem with rfl | hmem
    · exact not_isRound_of_over hover hstep
    · exact ih ((Grown.of_step? hstep).stopped hover) hrest action' hmem

/-- What is not a round leaves the pump as it is, or cuts it off because nobody needs it. -/
theorem pumpState_of_not_isRound (hstep : s.step? action = some t)
    (hround : action.isRound = false) : t.pumpState = s.pumpState ∨
      t.pumpState = .cutOff ∧ t.cancelled = true ∧ t.released = true ∧ t.joinable = true := by
  by_cases hcall : action = .call .shutdown
  · subst hcall
    exact .inl (unmoved_of_shutdown hstep).pumpState
  · have hahead : (s.ahead action).pumpState = s.pumpState := by cases action <;> rfl
    cases handled_of_step? hstep hround hcall with
    | on h => exact .inl (h.pumpState.trans hahead)
    | down h =>
      rcases h.pumpState with heq | ⟨hfree, heq⟩
      · exact .inl (heq.trans hahead)
      · exact .inr ⟨heq, h.cancelled, h.released, h.joinable.trans hfree⟩

/-- Only who shuts the session down begins to wait for the pump, and who has let go of the session
does not take it up again. -/
theorem joinable_of_step? (hstep : s.step? action = some t) (hcall : action ≠ .call .shutdown) :
    t.joinable = s.joinable ∧ (s.released = true → t.released = true) := by
  cases hround : action.isRound with
  | false =>
    have hahead : (s.ahead action).joinable = s.joinable ∧
        (s.released = true → (s.ahead action).released = true) := by
      cases action with
      | release => exact ⟨rfl, fun _ => rfl⟩
      | _ => exact ⟨rfl, id⟩
    cases handled_of_step? hstep hround hcall with
    | on h => exact ⟨h.joinable.trans hahead.1, fun hs => h.released.trans (hahead.2 hs)⟩
    | down h => exact ⟨h.joinable.trans hahead.1, fun _ => h.released⟩
  | true =>
    cases round_of_step? hstep hround with
    | halted haction hcancel hrun ht =>
      obtain ⟨ready, heq, -⟩ := closeOutstanding_conclude_eq s .dead
      rw [ht, halt, heq]
      exact ⟨rfl, id⟩
    | wentOn hrun hverdict hno hw ht =>
      obtain ⟨pumpState, alarms, heq, -⟩ := obey_eq _ hno
      rw [ht, heq]
      exact ⟨hw.unmoved.joinable, fun hs => hw.unmoved.released.trans hs⟩
    | @gaveUp w cause hrun hverdict hw hidle ht =>
      have hgiven := giveUp_spec w cause
      rw [ht]
      exact ⟨hgiven.joinable.trans hw.unmoved.joinable,
        fun hs => hgiven.released.trans (hw.unmoved.released.trans hs)⟩

/-- Whatever else happens, the owner has let go of the session or not. -/
theorem released_of_step? (hstep : s.step? action = some t) (hkeeps : action ≠ .release) :
    t.released = s.released := by
  by_cases hcall : action = .call .shutdown
  · subst hcall
    exact (unmoved_of_shutdown hstep).released
  cases hround : action.isRound with
  | false =>
    have hahead : (s.ahead action).released = s.released := by
      cases action with
      | release => exact absurd rfl hkeeps
      | _ => rfl
    cases handled_of_step? hstep hround hcall with
    | on h => exact h.released.trans hahead
    | down h => exact (h.released.trans h.needless.symm).trans hahead
  | true =>
    cases round_of_step? hstep hround with
    | halted haction hcancel hrun ht =>
      obtain ⟨ready, heq, -⟩ := closeOutstanding_conclude_eq s .dead
      rw [ht, halt, heq]
    | wentOn hrun hverdict hno hw ht =>
      obtain ⟨pumpState, alarms, heq, -⟩ := obey_eq _ hno
      rw [ht, heq]
      exact hw.unmoved.released
    | @gaveUp w cause hrun hverdict hw hidle ht =>
      rw [ht]
      exact (giveUp_spec w cause).released.trans hw.unmoved.released

/-- A round leaves a pump at work, or over; it closes the link unless a listener breaks off the
telling. -/
theorem pumpState_of_isRound (hstep : s.step? action = some t) (hround : action.isRound = true) :
    s.IsRunning ∧ t.pumpState.isOver = false ∨ t.pumpState = .closed ∨
      t.pumpState = .cutOff ∧ s.IsRunning ∧ s.lifecycle.breaksOff = true := by
  cases round_of_step? hstep hround with
  | halted haction hcancel hrun ht =>
    obtain ⟨ready, heq, -⟩ := closeOutstanding_conclude_eq s .dead
    rw [ht, halt, heq]
    exact .inr (.inl rfl)
  | wentOn hrun hverdict hno hw ht =>
    obtain ⟨pumpState, alarms, heq, hgoing, -⟩ := obey_eq _ hno
    rw [ht, heq]
    exact .inl ⟨hrun, hgoing⟩
  | @gaveUp w cause hrun hverdict hw hidle ht =>
    rw [← hw.unmoved.lifecycle]
    cases hb : w.lifecycle.breaksOff with
    | false =>
      obtain ⟨ready, heq⟩ := giveUp_eq cause hb
      rw [ht, heq]
      exact .inr (.inl rfl)
    | true =>
      obtain ⟨ready, heq⟩ := giveUp_eq_of_breaksOff cause hb
      rw [ht, heq]
      exact .inr (.inr ⟨rfl, hrun, rfl⟩)

/-- A pump that rests does so for a moment. -/
def RestsBriefly (s : Session) : Prop :=
  ∀ wakeAt, s.pumpState = .resting wakeAt → wakeAt ≤ s.now + Pump.restTime

theorem RestsBriefly.step (h : s.RestsBriefly) (hstep : s.step? action = some t) :
    t.RestsBriefly := by
  intro wakeAt hrest
  cases hround : action.isRound with
  | false =>
    rcases pumpState_of_not_isRound hstep hround with heq | ⟨heq, -⟩
    · have hle := h wakeAt (heq.symm.trans hrest)
      have hnow := (Lasting.of_step? hstep).now
      omega
    · rw [heq] at hrest
      cases hrest
  | true =>
    cases round_of_step? hstep hround with
    | halted haction hcancel hrun ht =>
      obtain ⟨ready, heq, -⟩ := closeOutstanding_conclude_eq s .dead
      rw [ht, halt, heq] at hrest
      cases hrest
    | wentOn hrun hverdict hno hw ht =>
      obtain ⟨pumpState, alarms, heq, -, hmoment⟩ := obey_eq _ hno
      rw [heq] at ht
      rw [ht] at hrest ⊢
      exact Nat.le_of_eq (hmoment wakeAt hrest)
    | @gaveUp w cause hrun hverdict hw hidle ht =>
      have hover := (giveUp_spec w cause).isOver
      rw [← ht, hrest] at hover
      cases hover

theorem RestsBriefly.of_reachable (hs : s.Reachable) : s.RestsBriefly := by
  obtain ⟨settings, s₀, actions, h₀, hrun⟩ := hs
  refine run?_induction (fun _ _ _ h hstep => h.step hstep) hrun ?_
  rw [eq_of_ofSettings h₀]
  exact nofun

/-- A pump that is not over wants something once it has had its rest. -/
theorem want_ne_nothing (hrun : s.pumpState.isOver = false)
    (hrested : ∀ wakeAt, s.pumpState = .resting wakeAt → wakeAt ≤ s.now) : s.want ≠ .nothing := by
  have hnext : { s with pumpState := .running }.want ≠ .nothing := by
    intro hnothing
    unfold want at hnothing
    dsimp only at hnothing
    split at hnothing
    · cases hnothing
    · split at hnothing <;> cases hnothing
  unfold want at hnext ⊢
  cases hstate : s.pumpState with
  | running => exact hnext
  | resting wakeAt =>
    dsimp only
    rw [if_neg (Nat.not_lt.2 (hrested wakeAt hstate))]
    exact hnext
  | closed =>
    rw [hstate] at hrun
    cases hrun
  | cutOff =>
    rw [hstate] at hrun
    cases hrun

/-- A pump that is at work writes or reads, unless it rests for a moment. -/
theorem goes_on (hs : s.Reachable) (hrun : s.IsRunning) :
    (∃ frame, s.want = .write frame) ∨ s.want = .read ∨
      ∃ wakeAt, s.pumpState = .resting wakeAt ∧ s.now < wakeAt ∧
        wakeAt ≤ s.now + Pump.restTime := by
  by_cases hrested : ∀ wakeAt, s.pumpState = .resting wakeAt → wakeAt ≤ s.now
  · rw [want_eq (want_ne_nothing hrun.2 hrested), if_neg (by rw [hrun.1]; exact Bool.false_ne_true)]
    split
    · exact .inl ⟨_, rfl⟩
    · exact .inr (.inl rfl)
  · rw [not_forall] at hrested
    obtain ⟨wakeAt, hresting⟩ := hrested
    obtain ⟨hrest, hlt⟩ := Classical.not_imp.1 hresting
    exact .inr (.inr ⟨wakeAt, hrest, Nat.not_le.1 hlt, RestsBriefly.of_reachable hs wakeAt hrest⟩)

end Session

end BleHost
