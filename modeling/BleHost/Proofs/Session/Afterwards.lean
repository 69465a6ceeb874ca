import BleHost.Proofs.Events.Readout
import BleHost.Proofs.Session.LinkUse

/-!
# After the end

Once the pump has closed the link, everything that ends has ended (`Finished`), and it all stays as
it is whatever anybody does (`Still`): nothing is read, written or handed out, nobody gets a waiter,
and streams only give what they still hold. Whoever makes a call then is told that the session is
over (`closed_for_good`); only a call that has to stand in line may find its time over before it is
told (`late_after_end`).
-/

namespace BleHost

theorem Broadcast.close_eq {b : Broadcast} (h : b.closed = true) : b.close = b := by
  rw [close, ← h]

theorem Outstanding.close_eq {o : Outstanding} (h : o.closed = true) (hnobody : o.waiters = []) :
    o.close = o := by
  rw [close, ← h, ← hnobody]

namespace Session

variable {i j : Nat} {s t u v : Session} {hs : List (Session × Frame)} {action : Action}
  {actions after later : List Action} {request : Request}

/-! ### What has ended -/

/-- A session whose pump has closed the link. -/
structure Finished (s : Session) : Prop where
  closed : s.pumpState = .closed
  dead : s.lifecycle.dead = true
  silent : s.outstanding.closed = true
  nobody : s.outstanding.waiters = []
  streamClosed : s.hub.stream.closed = true

/-- What the pump closes at its end is closed. -/
structure EndSound (s : Session) : Prop where
  silent : s.pumpState = .closed → s.outstanding.closed = true
  streamClosed : s.pumpState = .closed → s.hub.stream.closed = true

namespace EndSound

theorem move (h : s.EndSound) (hmove : Move i s t) : t.EndSound := by
  cases hmove with
  | queue hcall hstage hturn hlive hclaims hopen hroom hready =>
    exact { h with silent := fun hc => hclaims.closed.trans (h.silent hc) }
  | block hcall hstage hturn hlive hclaims hopen hroom =>
    exact { h with silent := fun hc => hclaims.closed.trans (h.silent hc) }
  | refuse bytes hcall hstage hturn hlive hclaims hclosed =>
    exact { h with silent := fun hc => hclaims.closed.trans (h.silent hc) }
  | finish hcall hgoing hover hready =>
    exact { h with silent := fun hc => (closed_withoutWaiter ..).trans (h.silent hc) }
  | hush hstopped hready => exact ⟨fun _ => rfl, fun _ => rfl⟩
  | cutOff hdown hsilent hneed hready hopen => exact ⟨nofun, nofun⟩
  | @goOn pumpState hpump hrun hnew =>
    have hopen : pumpState ≠ .closed := by
      rintro rfl
      cases hnew
    exact ⟨fun hc => absurd hc hopen, fun hc => absurd hc hopen⟩
  | conclude hpump hrun hstops hready => exact ⟨fun _ => rfl, fun _ => rfl⟩
  | breakOff hpump hrun hb hready => exact ⟨nofun, nofun⟩
  | use =>
    exact { h with
      streamClosed := fun hc => (congrArg _ (EventHub.stream_use ..)).trans (h.streamClosed hc) }
  | _ => exact { h with }

theorem route (hrun : s.IsRunning) (frame : Frame) : (s.route frame).EndSound := by
  have hopen : (s.route frame).pumpState ≠ .closed := by
    rw [pumpState_route]
    intro hc
    have hover := hrun.2
    rw [hc] at hover
    cases hover
  exact ⟨fun hc => absurd hc hopen, fun hc => absurd hc hopen⟩

theorem moves (h : s.EndSound) (hmoves : Moves i hs s t) : t.EndSound := by
  induction hmoves with
  | refl s => exact h
  | move hmove hrest ih => exact ih (h.move hmove)
  | route hrun hrest ih => exact ih (.route hrun _)

theorem of_reachable (h : s.Reachable) : s.EndSound := by
  refine h.induction ?_ (fun _ _ h => { h with }) fun _ _ _ _ h => h.moves
  intro settings s hset
  obtain rfl := eq_of_ofSettings hset
  exact ⟨nofun, nofun⟩

end EndSound

theorem Finished.of_reachable (h : s.Reachable) (hclosed : s.pumpState = .closed) : s.Finished where
  closed := hclosed
  dead := (LifeSound.of_reachable h).dead_of_isOver (by rw [hclosed]; rfl)
  silent := (EndSound.of_reachable h).silent hclosed
  nobody := (WaitersSound.of_reachable h).empty ((EndSound.of_reachable h).silent hclosed)
  streamClosed := (EndSound.of_reachable h).streamClosed hclosed

theorem Finished.isClosed (h : s.Finished) : s.IsClosed :=
  ⟨by rw [h.closed]; rfl, h.silent⟩

/-! ### What stays as it is -/

/-- Nothing has come in, gone out or been promised from one session to a later one. -/
structure Still (s t : Session) : Prop where
  outstanding : t.outstanding = s.outstanding
  replies : t.replies = s.replies
  receipts : t.receipts = s.receipts
  stream : t.hub.stream = s.hub.stream
  given : ∃ added, t.hub.given = s.hub.given ++ List.replicate added []

namespace Still

theorem refl (s : Session) : Still s s :=
  ⟨rfl, rfl, rfl, rfl, 0, (List.append_nil _).symm⟩

theorem trans (h : Still s t) (h' : Still t u) : Still s u where
  outstanding := h'.outstanding.trans h.outstanding
  replies := h'.replies.trans h.replies
  receipts := h'.receipts.trans h.receipts
  stream := h'.stream.trans h.stream
  given := by
    obtain ⟨added, heq⟩ := h.given
    obtain ⟨added', heq'⟩ := h'.given
    exact ⟨added + added', by rw [heq', heq, List.append_assoc, List.replicate_append_replicate]⟩

/-- Nothing comes in, goes out or is promised by a move after the end. -/
theorem of_move (h : s.Finished) (hmove : Move i s t) : Still s t := by
  have hsame := refl s
  have hstopped : s.pumpState.isOver = true := h.isClosed.stopped
  have hdead : s.lifecycle.dead = false → Still s t := by
    intro hlive
    rw [h.dead] at hlive
    cases hlive
  have hrunning : s.pumpState.isOver = false → Still s t := by
    intro hrun
    rw [hstopped] at hrun
    cases hrun
  cases hmove with
  | queue hcall hstage hturn hlive hclaims hopen hroom hready => exact hdead hlive
  | block hcall hstage hturn hlive hclaims hopen hroom => exact hdead hlive
  | refuse bytes hcall hstage hturn hlive hclaims hclosed => exact hdead hlive
  | finish hcall hgoing hover hready =>
    refine { hsame with outstanding := ?_ }
    show withoutWaiter s.outstanding _ = s.outstanding
    unfold withoutWaiter
    split
    · rw [Outstanding.remove, h.nobody, List.filter_nil, ← h.nobody]
    · rfl
  | hush hcause hready =>
    refine { hsame with outstanding := ?_, replies := ?_, stream := ?_ }
    · exact Outstanding.close_eq h.silent h.nobody
    · show s.replies ++ lastReplies s.outstanding .dead = s.replies
      rw [lastReplies, h.nobody, List.map_nil, List.append_nil]
    · exact Broadcast.close_eq h.streamClosed
  | cutOff hdown hsilent hneed hready hopen => exact absurd h.closed hopen
  | wrote outcome hpump hrun hqueued hready => exact hrunning hrun.2
  | goOn hpump hrun hnew => exact hrunning hrun.2
  | conclude hpump hrun hstops hready => exact hrunning hrun
  | breakOff hpump hrun hb hready => exact hrunning hrun.2
  | use =>
    exact { hsame with stream := EventHub.stream_use .., given := EventHub.given_use .. }
  | _ => exact { hsame with }

end Still

/-- A move after the end leaves everything ended. -/
theorem Finished.move (h : s.Finished) (hmove : Move i s t) : t.Finished where
  closed := hmove.closed_of_closed h.closed
  dead := (Grown.of_move hmove).dead h.dead
  silent := (Grown.of_move hmove).silent h.silent
  nobody := by rw [(Still.of_move h hmove).outstanding, h.nobody]
  streamClosed := by rw [(Still.of_move h hmove).stream, h.streamClosed]

/-- Nothing is handed out after the end. -/
theorem Finished.moves (h : s.Finished) (hmoves : Moves i hs s t) :
    hs = [] ∧ t.Finished ∧ Still s t := by
  induction hmoves with
  | refl s => exact ⟨rfl, h, .refl s⟩
  | move hmove hrest ih =>
    obtain ⟨hnothing, hfinished, hstill⟩ := ih (h.move hmove)
    exact ⟨hnothing, hfinished, (Still.of_move h hmove).trans hstill⟩
  | route hrun hrest ih =>
    have hover := h.isClosed.stopped
    rw [hrun.2] at hover
    cases hover

theorem Finished.step (h : s.Finished) (hstep : s.step? action = some t) :
    s.handouts action = [] ∧ t.Finished ∧ Still s t := by
  have hpump : ({ s with pump := s.pumpAfter action } : Session).Finished := { h with }
  obtain ⟨hnothing, hfinished, hstill⟩ := hpump.moves (moves_of_step? hstep)
  exact ⟨hnothing, hfinished, { hstill with }⟩

theorem Finished.run (h : s.Finished) (hrun : s.run? actions = some t) :
    s.history actions = [] ∧ t.Finished ∧ Still s t := by
  induction actions generalizing s with
  | nil =>
    obtain rfl : s = t := by simpa using hrun
    exact ⟨rfl, h, .refl s⟩
  | cons action actions ih =>
    obtain ⟨u, hstep, hrest⟩ := run?_cons_eq_some.1 hrun
    obtain ⟨hnothing, hfinished, hstill⟩ := h.step hstep
    obtain ⟨hnothing', hfinished', hstill'⟩ := ih hfinished hrest
    exact ⟨by rw [history_cons hstep, hnothing, hnothing', List.nil_append], hfinished',
      hstill.trans hstill'⟩

/-! ### Calls made after the end -/

/-- A call as it comes in. -/
def incoming (s : Session) (request : Request) : Call :=
  ⟨request, (request.limit? s.settings.commandTimeout).map (s.now + ·), .inLine⟩

/-- A call that comes in, after which its caller has set an alarm and stands in line if need be. -/
def entered (s : Session) (request : Request) : Session :=
  ({ s with
    calls := s.calls ++ [s.incoming request]
    line := if request.exclusive?.isSome then s.line ++ [s.calls.length] else s.line }).setAlarm
      (.caller s.calls.length)

theorem getElem?_entered (s : Session) (request : Request) :
    (s.entered request).calls[s.calls.length]? = some (s.incoming request) := by
  show (s.calls ++ [s.incoming request])[s.calls.length]? = _
  rw [List.getElem?_concat_length]

/-- An exchange that comes in takes its first turn. -/
theorem call_of_exclusive (hexclusive : request.exclusive?.isSome = true) :
    s.call request = (s.entered request).turn s.calls.length := by
  cases request with
  | exchange command limit => rfl
  | ask query => rfl
  | _ => cases hexclusive

/-- Any other call begins at once. -/
theorem call_of_free (hfree : request.exclusive? = none) :
    s.call request = (s.entered request).begin s.calls.length request := by
  have hline : s.entered request =
      ({ s with calls := s.calls ++ [s.incoming request] }).setAlarm (.caller s.calls.length) := by
    rw [entered, hfree]
    rfl
  rw [hline]
  rfl

/-- Any other call that needs the pump is told at once that the session is over. -/
theorem call_of_dead (hdead : s.lifecycle.dead = true) (hfree : request.exclusive? = none)
    (hrequest : request ≠ .shutdown) :
    s.call request = (s.entered request).finish s.calls.length (.error .dead) := by
  have hentered : (s.entered request).lifecycle.dead = true := hdead
  rw [call_of_free hfree]
  cases request with
  | send command => rw [begin, queueOnly, if_pos hentered]
  | initiate command => rw [begin, beginExchange, if_pos hentered]
  | reset bootInDfu => rw [begin, queueOnly, if_pos hentered]
  | shutdown => exact absurd rfl hrequest
  | exchange command limit => cases hfree
  | ask query => cases hfree

theorem outcome?_incoming (hdead : s.lifecycle.dead = true) :
    s.outcome? (s.incoming request) = some (.error .dead) := by
  show (if s.lifecycle.dead || s.outstanding.closed then _ else none) = _
  rw [hdead, Bool.true_or, if_pos rfl]

theorem Finished.entered (h : s.Finished) : (s.entered request).Finished := { h with }

/-- A call that need not stand in line, or is first in it, ends at once. -/
theorem Finished.call_at_once (h : s.Finished) (hlife : s.LifeSound)
    (hrequest : request ≠ .shutdown)
    (hfirst : request.exclusive? = none ∨ s.line = []) :
    (s.call request).calls[s.calls.length]? =
      some ((s.incoming request).atStage (.ended s.now (.error .dead))) := by
  have hcall := getElem?_entered s request
  rcases hexclusive : request.exclusive? with _ | command
  · rw [call_of_dead h.dead hexclusive hrequest, calls_finish, getElem?_modify_self hcall]
    rfl
  · have hsome : request.exclusive?.isSome = true := by rw [hexclusive]; rfl
    have hline : s.line = [] := hfirst.resolve_left (by rw [hexclusive]; exact nofun)
    have hgo : (s.entered request).CanGoOn s.calls.length (s.incoming request) := by
      show (if request.exclusive?.isSome then s.line ++ [s.calls.length] else s.line).head? = _
      rw [if_pos hsome, hline]
      rfl
    have hlife' : (s.entered request).LifeSound := { hlife with }
    rw [call_of_exclusive hsome, h.entered.isClosed.calls_turn hlife' hcall hgo (fun _ => hsome)
      (outcome?_incoming h.dead), getElem?_modify_self hcall]
    rfl

/-- A call that is made after the end fares as one that has stood in line at the end. -/
theorem Finished.fares_call (h : s.Finished) (hs : s.Reachable) (hrequest : request ≠ .shutdown)
    (hstep : s.step? (.call request) = some u) (hlater : u.run? later = some v) :
    s.Fares (s.incoming request) (.error .dead) (.call request :: later) v s.calls.length := by
  have hlife := LifeSound.of_reachable hs
  have hu : u = s.call request := by
    simp only [step?] at hstep
    split at hstep
    · cases hstep
    · exact (Option.some.inj hstep).symm
  have hfinished := (h.step hstep).2.1
  refine Fares.step ?_ hstep hlater fun hcall hresult =>
    fares_of_run hfinished.isClosed (hs.step hstep) hcall rfl hresult hlater
  by_cases hsome : request.exclusive?.isSome = true
  · have hline : (s.entered request).line = s.line ++ [s.calls.length] := if_pos hsome
    rw [hu, call_of_exclusive hsome]
    refine fares_of_turn h.entered.isClosed { hlife with } (getElem?_entered s request)
      (fun _ => hsome) (outcome?_incoming h.dead) (.inr ?_) fun _ hhead => ?_
    · by_cases hhead : (s.entered request).line.head? = some s.calls.length
      · exact .inr hhead
      · exact .inl ⟨rfl, hhead⟩
    · -- the line has not been empty, and its first place is not taken by whoever comes in last
      rw [hline] at hhead
      have hsome : s.line ≠ [] := fun hnil => hhead (by rw [hnil]; rfl)
      rw [List.head?_append_of_ne_nil _ hsome] at hhead
      exact isBehind_of_line (.inr ⟨request, rfl, rfl⟩) hsome hhead
  · have hfree : request.exclusive? = none := by simpa using hsome
    have hover := h.call_at_once hlife hrequest (.inl hfree)
    rw [← hu] at hover
    exact .ended hover rfl rfl

/-- When nobody has a reason to take a turn, nobody stands in line. -/
theorem Finished.line_eq_nil (h : s.Finished) (hs : s.Reachable)
    (hquiet : ∀ j, .caller j ∉ s.ready) : s.line = [] := by
  refine List.eq_nil_iff_forall_not_mem.2 fun j hmem => ?_
  obtain ⟨call, hcall, hexclusive, hgoing⟩ := ((LineSound.of_reachable hs).mem j).1 hmem
  rcases over_or_held h.isClosed hs hquiet hcall with hover | hheld
  · rw [hgoing] at hover
    cases hover
  · rw [isHeld_of_exclusive (CallsFit.of_reachable hs) hcall hexclusive] at hheld
    cases hheld

/-- When nobody has a reason to take a turn, a call that was made after the end is over. -/
theorem over_of_fares (hclosed : v.IsClosed) (hv : v.Reachable) (hquiet : ∀ j, .caller j ∉ v.ready)
    (hfares : s.Fares (s.incoming request) (.error .dead) actions v j) :
    ∃ call : Call, v.calls[j]? = some call ∧ call.stage.isOver = true := by
  cases hfares with
  | stays hcall hresult =>
    rcases over_or_held hclosed hv hquiet hcall with hover | hheld
    · exact ⟨_, hcall, hover⟩
    · rw [isHeld, stage?_eq hcall] at hheld
      cases hheld
  | ended hcall hrequest hstage => exact ⟨_, hcall, by rw [hstage]; rfl⟩
  | dropped hcall hrequest hstage habandon => exact ⟨_, hcall, by rw [hstage]; rfl⟩
  | late hcall hrequest hstage => exact ⟨_, hcall, by rw [hstage]; rfl⟩

/-! ### The end is for good -/

/-- **The end is for good.** Let the pump have closed the link, and anything happen afterwards. The
session is not alive, nobody waits for a response and nobody can; the link was closed once, as the
last thing that was done to it; nothing is handed out any more, and no event, response or waiter has
been added. Receivers get what the stream still holds for them and then find it closed, new ones at
once. Whoever makes a call then gets no waiter and is told that the session is over: at once, unless
others stand in line before him; then it happens in his turn, and the turns come to an end. Only
while he stands there, and another call is first, may his time run out instead. -/
theorem closed_for_good {settings : Settings} {s₀ : Session} (h₀ : ofSettings settings = .ok s₀)
    (hrun : s₀.run? actions = some s) (hclosed : s.pumpState = .closed)
    (hafter : s.run? after = some t) :
    (t.isAlive = false ∧ t.outstanding.closed = true ∧ t.pending = 0) ∧
    ((∃ uses, .close ∉ uses ∧ s₀.linkHistory (actions ++ after) = uses ++ [.close]) ∧
      s.linkHistory after = []) ∧
    (s.history after = [] ∧ Still s t) ∧
    ((∀ (k : Nat) (r : Receiver) (times : Nat), t.hub.receivers[k]? = some r →
        t.hub.receiveTimes k times =
          (t.hub.stream.remainder r.position ++
            List.replicate times Received.closed).take times) ∧
      ∀ times, t.hub.receiver.receiveTimes t.hub.receivers.length times =
        List.replicate times .closed) ∧
    ∀ request u, request ≠ .shutdown → t.step? (.call request) = some u →
      u.outstanding = t.outstanding ∧
      (request.exclusive? = none ∨ t.line = [] → u.calls[t.calls.length]? =
        some ((t.incoming request).atStage (.ended t.now (.error .dead)))) ∧
      ((∀ j, .caller j ∉ t.ready) → t.line = []) ∧
      ∀ later v, u.run? later = some v →
        t.Fares (t.incoming request) (.error .dead) (.call request :: later) v t.calls.length ∧
        ((∀ j, .caller j ∉ v.ready) → ∃ call : Call, v.calls[t.calls.length]? = some call ∧
          call.stage.isOver = true) ∧
        Acc Stirs v := by
  have hs : s.Reachable := ⟨settings, s₀, actions, h₀, hrun⟩
  have ht : t.Reachable := hs.run hafter
  have hfinished := Finished.of_reachable hs hclosed
  obtain ⟨hnothing, hfinished', hstill⟩ := hfinished.run hafter
  have hopen : s₀.pumpState ≠ .closed := by
    rw [eq_of_ofSettings h₀]
    exact nofun
  refine ⟨⟨?_, hfinished'.silent, ?_⟩, ⟨?_, ?_⟩, ⟨hnothing, hstill⟩, ⟨?_, ?_⟩, ?_⟩
  · rw [isAlive, hfinished'.dead, Bool.not_true]
  · rw [pending, Outstanding.size, hfinished'.nobody, List.length_nil]
  · obtain ⟨uses, huses, heq⟩ := linkHistory_eq hopen (run?_append hrun hafter)
    rw [if_pos hfinished'.closed] at heq
    exact ⟨uses, huses, heq⟩
  · exact linkHistory_of_over hfinished.isClosed.stopped after
  · exact fun k r times hr => EventHub.receiveTimes_of_closed hfinished'.streamClosed hr times
  · exact EventHub.receiveTimes_receiver hfinished'.streamClosed
  intro request u hrequest hstep
  have hu : u = t.call request := by
    simp only [step?] at hstep
    split at hstep
    · cases hstep
    · exact (Option.some.inj hstep).symm
  obtain ⟨-, hfinished'', hstill'⟩ := hfinished'.step hstep
  refine ⟨hstill'.outstanding, ?_, hfinished'.line_eq_nil ht, ?_⟩
  · intro hfirst
    rw [hu]
    exact hfinished'.call_at_once (LifeSound.of_reachable ht) hrequest hfirst
  · intro later v hlater
    have hv : v.Reachable := (ht.step hstep).run hlater
    have hover : v.IsClosed := (hfinished''.run hlater).2.1.isClosed
    have hfares := hfinished'.fares_call ht hrequest hstep hlater
    exact ⟨hfares, fun hquiet => over_of_fares hover hv hquiet hfares, acc_stirs hover hv⟩

/-- An exchange that waits for its response, a disconnection that somebody is to read from the
stream, and the end of the link. -/
def unplugged : List Action :=
  [.use .addReceiver, .call (.exchange (.bare 0x00 0x01) none), .write (.ok ()),
    .read (.received [0x80, 0x03, 0x03, 0x04, 0x01, 0x13, 0x02]),
    .read (.failed (.link "unplugged"))]

/-- The exchange ends, its caller makes another call, and somebody reads the stream to its end. -/
theorem closed_for_good_unplugged : ∃ s₀ s t u, ofSettings { maxFailures := 0 } = .ok s₀ ∧
    s₀.run? unplugged = some s ∧ s.pumpState = .closed ∧ s.run? [.turn 0] = some t ∧
    t.step? (.call (.exchange (.bare 0x00 0x01) (some 5))) = some u ∧
    u.stage? 1 = some (.ended 0 (.error .dead)) ∧
    t.pending = 0 ∧ s₀.linkHistory (unplugged ++ [.turn 0]) =
      [.write [0x00, 0x00, 0x00, 0x01], .read, .read, .close] ∧
    t.hub.receiveTimes 0 2 =
      [.message ⟨.connectionDisconnected, 1, .known .remoteUserTerminatedConnection, ()⟩,
        .closed] := by
  have hgood : ∀ {s₀ s t u : Session}, ofSettings { maxFailures := 0 } = .ok s₀ →
      s₀.run? unplugged = some s → s.pumpState = .closed → s.run? [.turn 0] = some t →
      t.step? (.call (.exchange (.bare 0x00 0x01) (some 5))) = some u →
      t.line = [] → t.calls.length = 1 → t.now = 0 → t.hub.receivers[0]? = some { position := 0 } →
      u.stage? 1 = some (.ended 0 (.error .dead)) ∧ t.pending = 0 ∧
        t.hub.receiveTimes 0 2 =
          (t.hub.stream.remainder 0 ++ List.replicate 2 Received.closed).take 2 := by
    intro s₀ s t u h₀ hs hclosed ht hu hline hcalls hnow hreceiver
    obtain ⟨⟨-, -, hpending⟩, -, -, ⟨hreceivers, -⟩, hcall⟩ := closed_for_good h₀ hs hclosed ht
    have hover := (hcall (.exchange (.bare 0x00 0x01) (some 5)) u nofun hu).2.1 (.inr hline)
    rw [hcalls, hnow] at hover
    exact ⟨by rw [stage?, hover]; rfl, hpending, hreceivers 0 _ 2 hreceiver⟩
  have h₀ : ofSettings { maxFailures := 0 } = .ok _ := rfl
  obtain ⟨hstage, hpending, hreceived⟩ := hgood h₀
    (Option.some_get (by decide +kernel)).symm (by decide +kernel)
    (Option.some_get (by decide +kernel)).symm (Option.some_get (by decide +kernel)).symm
    (by decide +kernel) (by decide +kernel) (by decide +kernel) (by decide +kernel)
  refine ⟨_, _, _, _, h₀, (Option.some_get _).symm, by decide +kernel, (Option.some_get _).symm,
    (Option.some_get _).symm, hstage, hpending, by decide +kernel, ?_⟩
  rw [hreceived]
  decide +kernel

/-- A call that is made after the end, and has to stand in line, may be late. -/
theorem late_after_end : ∃ s₀ s t, ofSettings {} = .ok s₀ ∧
    s₀.run? [.call (.exchange (.bare 0x00 0x01) none), .write (.ok ()), .read (.received [])] =
      some s ∧
    s.pumpState = .closed ∧ s.step? (.call (.exchange (.bare 0x00 0x08) (some 0))) = some t ∧
    t.stage? 1 = some (.ended 0 (.error .timeout)) := by
  have h₀ : ofSettings {} = .ok _ := rfl
  refine ⟨_, _, _, h₀, (Option.some_get (by decide +kernel)).symm, ?_,
    (Option.some_get (by decide +kernel)).symm, ?_⟩
  all_goals decide +kernel

end Session

end BleHost
