import BleHost.Proofs.Session.Budget
import BleHost.Proofs.Session.Shutdown

/-!
# A listener that breaks off the telling

When the link fails for good, the pump tells its listeners before it tells those who wait for a
response. A listener that breaks off the telling therefore takes more with it than the listeners
after it: the waiters are told nothing, the stream stays open and the link is left as it is
(`broken_off_by_listener`). Only somebody who shuts the session down, or the session's being taken
down, makes up for the waiters and the stream; nothing makes up for the rest.
-/

namespace BleHost

/-- The telling ends with the first who breaks it off. -/
theorem Lifecycle.reached_append {before after : List LifecycleListener} {l : LifecycleListener}
    (hbefore : ∀ b ∈ before, b.panics = false) (hl : l.panics = true) :
    reached (before ++ l :: after) = before ++ [l] := by
  induction before with
  | nil => rw [List.nil_append, reached, hl]; rfl
  | cons b before ih =>
    rw [List.cons_append, reached, hbefore b List.mem_cons_self,
      ih fun b' hb' => hbefore b' (List.mem_cons_of_mem _ hb')]
    rfl

namespace Session

variable {i j w : Nat} {s t u : Session} {hs : List (Session × Frame)} {action : Action}
  {actions : List Action} {call : Call} {cause : String}

/-! ### When nobody hears of the end -/

/-- No waiter has been told anything, and nothing has been closed. -/
structure Unheard (s t : Session) : Prop where
  replies : t.replies = s.replies
  closed : t.outstanding.closed = s.outstanding.closed
  streamClosed : t.hub.stream.closed = s.hub.stream.closed

namespace Unheard

theorem refl (s : Session) : Unheard s s := ⟨rfl, rfl, rfl⟩

theorem trans (h : Unheard s t) (h' : Unheard t u) : Unheard s u where
  replies := h'.replies.trans h.replies
  closed := h'.closed.trans h.closed
  streamClosed := h'.streamClosed.trans h.streamClosed

/-- Only who shuts the session down, and the session's being taken down, makes anybody hear of the
end of a pump that is over. -/
theorem of_move (hmove : Move i s t) (hover : s.pumpState.isOver = true)
    (hkept : t.cancelled = false) (hlife : s.LifeSound) (hfit : s.CallsFit)
    (hwho : ∀ call, s.calls[i]? = some call → call.request ≠ .shutdown) : Unheard s t := by
  have hsame := refl s
  have hrunning : s.pumpState.isOver = false → Unheard s t := by
    intro hrun
    rw [hover] at hrun
    cases hrun
  cases hmove with
  | queue hcall hstage hturn hlive hclaims hopen hroom hready =>
    exact { hsame with closed := hclaims.closed }
  | block hcall hstage hturn hlive hclaims hopen hroom =>
    exact { hsame with closed := hclaims.closed }
  | refuse bytes hcall hstage hturn hlive hclaims hclosed =>
    exact { hsame with closed := hclaims.closed }
  | finish hcall hgoing hover' hready => exact { hsame with closed := closed_withoutWaiter .. }
  | hush hcause hready hwho' =>
    rcases hwho' with hdown | ⟨call, hcall, hrequest | hstage⟩
    · have hcancel := hlife.cancelled_of_takenDown hdown
      rw [show s.cancelled = false from hkept] at hcancel
      cases hcancel
    · exact absurd hrequest (hwho call hcall)
    · have hrequest := hfit i call hcall
      rw [Call.IsFit, hstage] at hrequest
      exact absurd hrequest (hwho call hcall)
  | wrote outcome hpump hrun hqueued hready => exact hrunning hrun.2
  | goOn hpump hrun hnew => exact hrunning hrun.2
  | conclude hpump hrun hstops hready => exact hrunning hrun
  | breakOff hpump hrun hb hready => exact hrunning hrun.2
  | use => exact { hsame with streamClosed := congrArg _ (EventHub.stream_use ..) }
  | _ => exact { hsame with }

theorem of_moves (hmoves : Moves i hs s t) (hover : s.pumpState.isOver = true)
    (hkept : t.cancelled = false) (hlife : s.LifeSound) (hfit : s.CallsFit)
    (hplace : i ≠ s.calls.length)
    (hwho : ∀ call, s.calls[i]? = some call → call.request ≠ .shutdown) : Unheard s t := by
  induction hmoves with
  | refl s => exact refl s
  | @move hs s u t hmove hrest ih =>
    have hkept' : u.cancelled = false := (Lasting.of_moves hrest).not_cancelled hkept
    -- nobody comes in at this place any more
    have hnext : i ≠ u.calls.length ∧
        ∀ call, u.calls[i]? = some call → call.request ≠ .shutdown := by
      rcases Nat.lt_or_gt_of_ne hplace with hlt | hgt
      · refine ⟨Nat.ne_of_lt (Nat.lt_of_lt_of_le hlt hmove.length_calls_le), ?_⟩
        intro call' hcall'
        have hcall := List.getElem?_eq_getElem hlt
        rw [(Later.of_move hmove).request_eq hcall hcall']
        exact hwho _ hcall
      · rw [hmove.calls_eq hgt]
        exact ⟨hplace, hwho⟩
    exact (of_move hmove hover hkept' hlife hfit hwho).trans
      (ih ((Grown.of_move hmove).stopped hover) hkept (hlife.move hmove) (hfit.move hmove) hnext.1
        hnext.2)
  | route hrun hrest ih =>
    rw [hrun.2] at hover
    cases hover

theorem of_step? (hs : s.Reachable) (hstep : s.step? action = some t)
    (hover : s.pumpState.isOver = true) (hkept : t.cancelled = false) : Unheard s t := by
  have hlife := LifeSound.of_reachable hs
  have hfit := CallsFit.of_reachable hs
  have hnobody : ∀ (i : Nat) (call : Call), s.calls[i]? = some call →
      call.request ≠ .shutdown := by
    intro i call hcall hrequest
    have hcancel := cancelled_of_shutdown hs hcall hrequest
    rw [(Lasting.of_step? hstep).not_cancelled hkept] at hcancel
    cases hcancel
  have hactor : ∀ i, i ≠ s.calls.length → s.IsActor i action → Unheard s t := by
    intro i hplace hi
    have hheard := of_moves (s := { s with pump := s.pumpAfter action })
      (moves_of_isActor hi hstep) hover hkept { hlife with } hfit hplace (hnobody i)
    exact ⟨hheard.replies, hheard.closed, hheard.streamClosed⟩
  have hown : ∀ index, s.IsOwn index action → s.IsActor index action →
      (∀ request, action ≠ .call request) → Unheard s t := by
    intro index hown hi hcall
    rcases Nat.lt_or_ge index s.calls.length with hlt | hge
    · exact hactor index (Nat.ne_of_lt hlt) hi
    · rcases own_of_nobody hstep hown (List.getElem?_eq_none hge) with ⟨request, heq, -⟩ |
        ⟨ready, rfl⟩
      · exact absurd heq (hcall request)
      · exact ⟨rfl, rfl, rfl⟩
  cases action with
  | call request =>
    by_cases hrequest : request = .shutdown
    · subst hrequest
      have hcancel := (unmoved_of_shutdown hstep).cancelled
      rw [hkept] at hcancel
      cases hcancel
    · simp only [step?] at hstep
      split at hstep
      · cases hstep
      rename_i hreleased
      rw [Bool.not_eq_true] at hreleased
      obtain rfl := Option.some.inj hstep
      have hfit' : (s.entered request).CallsFit :=
        hfit.moves (moves_entered request _ hreleased rfl rfl (.refl _))
      have hheard := of_moves (moves_entered_call s request) hover hkept { hlife with } hfit' ?_ ?_
      · exact ⟨hheard.replies, hheard.closed, hheard.streamClosed⟩
      · show s.calls.length ≠ (s.calls ++ [s.incoming request]).length
        simp
      · intro call hcall
        rw [getElem?_entered] at hcall
        rwa [← Option.some.inj hcall]
  | await index limit => exact hown index rfl rfl (by rintro _ ⟨⟩)
  | abandon index => exact hown index rfl rfl (by rintro _ ⟨⟩)
  | turn index => exact hown index rfl rfl (by rintro _ ⟨⟩)
  | halt => exact hactor (s.calls.length + 1) (by omega) (Nat.lt_succ_self s.calls.length)
  | write outcome => exact hactor (s.calls.length + 1) (by omega) (Nat.lt_succ_self s.calls.length)
  | read outcome => exact hactor (s.calls.length + 1) (by omega) (Nat.lt_succ_self s.calls.length)
  | _ => exact hactor (s.calls.length + 1) (by omega) trivial

end Unheard

/-- Who waits for a response without a time limit can do nothing before he is told something. -/
theorem turn_of_unanswered (hcall : s.calls[j]? = some call) (hstage : call.stage = .forReply w)
    (hlimit : call.deadline = none) (hreply : s.reply? w = none) : s.turn j = s := by
  have hstill : s.advance j call = s := by
    rw [advance, hstage]
    show s.awaitReply j call.request w = s
    rw [awaitReply_of_none hreply, ← hstage, setStage_self hcall]
  have hon : s.isOverdue j = false := by
    rw [isOverdue, hcall]
    show (call.stage.isTimed && call.deadline.any (· ≤ s.now)) = false
    rw [hlimit]
    exact Bool.and_false _
  rw [turn, hcall]
  show (if (s.advance j call).isOverdue j then _ else s.advance j call) = s
  rw [hstill, hon]
  rfl

/-- A call that waits for a response without a time limit goes on waiting until it is told something
or given up. -/
theorem stays_of_step? (hstep : s.step? action = some t) (hcall : s.calls[j]? = some call)
    (hstage : call.stage = .forReply w) (hlimit : call.deadline = none)
    (hreply : s.reply? w = none) (hkept : action ≠ .abandon j) : t.calls[j]? = some call := by
  by_contra hchanged
  have hown := isOwn_of_changed hstep hcall hchanged
  cases action with
  | call request =>
    rw [List.getElem?_eq_none (Nat.le_of_eq hown)] at hcall
    cases hcall
  | await index limit =>
    obtain rfl : index = j := hown
    rw [← Option.some.inj hstep, Session.await, stage?_eq hcall, hstage] at hchanged
    exact hchanged hcall
  | abandon index => exact hkept (congrArg _ hown)
  | turn index =>
    obtain rfl : index = j := hown
    refine hchanged ?_
    have hturn := turn_of_unanswered (s := { s with ready := s.ready.erase (.caller index) }) hcall
      hstage hlimit hreply
    rw [← Option.some.inj hstep, hturn]
    exact hcall
  | _ => exact absurd hown id

/-- What there is after a pump that was cut off, as long as nobody has shut the session down and it
has not been taken down. -/
theorem unheard_of_run? (hs : s.Reachable) (hover : s.pumpState.isOver = true)
    (hrun : s.run? actions = some t) (hkept : t.cancelled = false) : Unheard s t ∧
      ∀ (j : Nat) (call : Call) (w : Nat), s.calls[j]? = some call → call.stage = .forReply w →
        call.deadline = none → s.reply? w = none → .abandon j ∉ actions →
        t.calls[j]? = some call := by
  induction actions generalizing s with
  | nil =>
    obtain rfl : s = t := by simpa using hrun
    exact ⟨.refl s, fun j call w hcall _ _ _ _ => hcall⟩
  | cons action actions ih =>
    obtain ⟨u, hstep, hrest⟩ := run?_cons_eq_some.1 hrun
    have hkept' : u.cancelled = false := (Lasting.of_run? hrest).not_cancelled hkept
    have hfirst := Unheard.of_step? hs hstep hover hkept'
    obtain ⟨hheard, hstay⟩ := ih (hs.step hstep) ((Grown.of_step? hstep).stopped hover) hrest
    refine ⟨hfirst.trans hheard, ?_⟩
    intro j call w hcall hstage hlimit hreply hnever
    refine hstay j call w (stays_of_step? hstep hcall hstage hlimit hreply ?_) hstage hlimit ?_ ?_
    · rintro rfl
      exact hnever List.mem_cons_self
    · rwa [reply?, hfirst.replies]
    · exact fun hmem => hnever (List.mem_cons_of_mem _ hmem)

/-- A pump that was cut off stays so. -/
theorem cutOff_of_run? (hcut : s.pumpState = .cutOff) (hrun : s.run? actions = some t) :
    t.pumpState = .cutOff := by
  refine run?_induction (P := fun s => s.pumpState = .cutOff) ?_ hrun hcut
  intro s action t hcut hstep
  have hover : s.pumpState.isOver = true := by rw [hcut]; rfl
  rcases pumpState_of_not_isRound hstep (not_isRound_of_over hover hstep) with heq | ⟨heq, -⟩
  · exact heq.trans hcut
  · exact heq

/-- Nobody is told of a failure when the session is dead. -/
theorem told_of_run? (hdead : s.lifecycle.dead = true) (hrun : s.run? actions = some t) :
    t.lifecycle.told = s.lifecycle.told := by
  refine (run?_induction (P := fun u => u.lifecycle.dead = true ∧
    u.lifecycle.told = s.lifecycle.told) ?_ hrun ⟨hdead, rfl⟩).2
  rintro u action v ⟨hdead, htold⟩ hstep
  obtain ⟨hdead', htold'⟩ := Lifecycle.foldl_after_of_dead hdead (u.lifeEvents action)
  rw [lifecycle_of_step? hstep]
  exact ⟨hdead', htold'.trans htold⟩

/-! ### What a listener takes with it -/

/-- A pump that gives up with nobody who breaks off the telling leaves nothing undone. -/
theorem quiet_of_giveUp (hs : s.Reachable) (hrun : s.IsRunning) (hstep : s.step? action = some t)
    (hverdict : s.verdict? action = some (.giveUp cause))
    (hquiet : ∀ l ∈ s.lifecycle.listeners, l.panics = false) :
    t.lifecycle.told = s.lifecycle.told ++
        s.lifecycle.listeners.map (fun l => (l.id, .linkLost cause)) ∧
      t.replies = s.replies ++ lastReplies s.outstanding (.linkLost cause) ∧ t.pending = 0 ∧
      t.hub.stream.closed = true ∧ t.pumpState = .closed := by
  obtain ⟨hover, htold, hreplies⟩ := last_of_giveUp hs hrun hstep hverdict
  have hquiet' := breaksOff_eq_false hquiet
  have hclosed : t.pumpState = .closed := by
    rcases pumpState_of_isRound hstep (isRound_of_verdict? hverdict) with
      ⟨-, hgoing⟩ | hclosed | ⟨-, -, hb⟩
    · rw [hover] at hgoing
      cases hgoing
    · exact hclosed
    · rw [hquiet'] at hb
      cases hb
  have hfinished := Finished.of_reachable (hs.step hstep) hclosed
  rw [Lifecycle.reached_eq hquiet] at htold
  refine ⟨htold, hreplies hquiet', ?_, hfinished.streamClosed, hclosed⟩
  rw [pending, Outstanding.size, hfinished.nobody, List.length_nil]

/-- A listener that breaks off the telling leaves all but the queue as it was. -/
theorem cutOff_of_giveUp (hrun : s.IsRunning) (hstep : s.step? action = some t)
    (hverdict : s.verdict? action = some (.giveUp cause)) (hb : s.lifecycle.breaksOff = true) :
    t.pumpState = .cutOff ∧ t.cancelled = false ∧ t.outstanding = s.outstanding ∧
      t.replies = s.replies ∧ t.hub = s.hub ∧
      ∃ rest, t.receipts = s.receipts ++ s.written action ++ rest ∧
        ∀ r ∈ rest, r.2 = .error .dead := by
  cases round_of_step? hstep (isRound_of_verdict? hverdict) with
  | halted haction hcancel hgoing ht =>
    rw [haction] at hverdict
    cases hverdict
  | wentOn hgoing hverdict' hno hw ht =>
    rw [hverdict] at hverdict'
    exact absurd (Option.some.inj hverdict').symm (hno cause)
  | @gaveUp w cause' hgoing hverdict' hw hidle ht =>
    rw [← hw.unmoved.lifecycle] at hb
    obtain ⟨ready, heq⟩ := giveUp_eq_of_breaksOff cause' hb
    obtain ⟨hwaits, hreplies, hhub⟩ := hidle
    rw [ht, heq]
    exact ⟨rfl, hw.unmoved.cancelled.trans hrun.1, hwaits, hreplies, hhub, lastReceipts w.outbound,
      by rw [hw.receipts], lastReceipts_eq⟩

/-- **A listener that breaks off the telling.** When the link fails for good, the session is not
alive any more. If no listener breaks off the telling, all of them are told the cause and so is
everybody who waits for a response; nobody is left waiting, the stream is closed and so is the link.
But if one does, only those before it and itself are told, and nobody else ever is. What is left in
the queue is reported dead; yet whoever waits for a response is told nothing, the stream stays open,
and the link is not closed, then or later. Unless somebody shuts the session down or it is taken
down, that remains so: a call that waits without a time limit waits for ever. Who shuts the session
down sees to the waiters and the stream, and still not to the link. -/
theorem broken_off_by_listener (hs : s.Reachable) (hrun : s.IsRunning)
    (hstep : s.step? action = some t) (hverdict : s.verdict? action = some (.giveUp cause)) :
    t.isAlive = false ∧
    ((∀ l ∈ s.lifecycle.listeners, l.panics = false) →
      t.lifecycle.told = s.lifecycle.told ++
          s.lifecycle.listeners.map (fun l => (l.id, .linkLost cause)) ∧
        t.replies = s.replies ++ lastReplies s.outstanding (.linkLost cause) ∧ t.pending = 0 ∧
        t.hub.stream.closed = true ∧ t.pumpState = .closed) ∧
    ∀ before l after, s.lifecycle.listeners = before ++ l :: after →
      (∀ b ∈ before, b.panics = false) → l.panics = true →
      t.lifecycle.told = s.lifecycle.told ++
          (before ++ [l]).map (fun l => (l.id, .linkLost cause)) ∧
      (t.outstanding = s.outstanding ∧ t.replies = s.replies ∧ t.hub = s.hub ∧
        ∃ rest, t.receipts = s.receipts ++ s.written action ++ rest ∧
          ∀ r ∈ rest, r.2 = .error .dead) ∧
      t.pumpState = .cutOff ∧ .close ∉ s.linkUses action ∧
      ∀ later u, t.run? later = some u →
        u.lifecycle.told = t.lifecycle.told ∧ u.pumpState = .cutOff ∧ t.linkHistory later = [] ∧
        (u.cancelled = false →
          u.replies = t.replies ∧ u.outstanding.closed = false ∧ u.hub.stream.closed = false ∧
          ∀ (j : Nat) (call : Call) (w : Nat), t.calls[j]? = some call →
            call.stage = .forReply w → call.deadline = none → t.reply? w = none →
            .abandon j ∉ later → u.calls[j]? = some call) ∧
        ∀ v, u.step? (.call .shutdown) = some v →
          v.pending = 0 ∧ v.hub.stream.closed = true ∧ v.pumpState = .cutOff := by
  have ht := hs.step hstep
  obtain ⟨hover, htold, -⟩ := last_of_giveUp hs hrun hstep hverdict
  have hdead := (LifeSound.of_reachable ht).dead_of_isOver hover
  refine ⟨by rw [isAlive, hdead, Bool.not_true], quiet_of_giveUp hs hrun hstep hverdict, ?_⟩
  intro before l after hlisteners hbefore hl
  obtain ⟨hlive, -, hwaits, hstream⟩ := (LifeSound.of_reachable hs).open_of_isRunning hrun
  have hb : s.lifecycle.breaksOff = true := by
    rw [Lifecycle.breaksOff, hlive, hlisteners, List.any_append, List.any_cons, hl]
    simp
  obtain ⟨hcut, hkept, houtstanding, hreplies, hhub, hreceipts⟩ :=
    cutOff_of_giveUp hrun hstep hverdict hb
  rw [hlisteners, Lifecycle.reached_append hbefore hl] at htold
  refine ⟨htold, ⟨houtstanding, hreplies, hhub, hreceipts⟩, hcut, ?_, ?_⟩
  · rw [linkUses, hstep]
    dsimp only
    rw [if_neg (by rw [hcut]; exact fun h => by cases h.2), List.append_nil]
    exact close_not_mem_access s action
  intro later u hlater
  have hu := ht.run hlater
  have hcut' := cutOff_of_run? hcut hlater
  refine ⟨told_of_run? hdead hlater, hcut', linkHistory_of_over hover later, ?_, ?_⟩
  · intro hkept'
    obtain ⟨hheard, hstay⟩ := unheard_of_run? ht hover hlater hkept'
    refine ⟨hheard.replies, ?_, ?_, hstay⟩
    · rw [hheard.closed, houtstanding, hwaits]
    · rw [hheard.streamClosed, hhub, hstream]
  · intro v hshut
    have hhushed : v.Hushed := by
      rcases calls_of_shutdown hshut with ⟨-, -, hgoing⟩ | ⟨-, hhushed, -⟩
      · rw [hcut'] at hgoing
        cases hgoing
      · exact hhushed
    refine ⟨?_, hhushed.streamClosed, (unmoved_of_shutdown hshut).pumpState.trans hcut'⟩
    rw [pending, Outstanding.size,
      (WaitersSound.of_reachable (hu.step hshut)).empty hhushed.silent, List.length_nil]

/-- Three listeners, of whom the second breaks off the telling, and an exchange that waits for its
response. -/
def ringing : List Action :=
  [.listen ⟨7, false⟩, .listen ⟨8, true⟩, .listen ⟨9, false⟩,
    .call (.exchange (.bare 0x00 0x01) none), .write (.ok ()), .turn 0]

/-- The link fails: the third listener is not told, and a minute later the exchange still waits,
with the link open. -/
theorem broken_off_by_listener_ringing : ∃ s₀ s t u, ofSettings { maxFailures := 0 } = .ok s₀ ∧
    s₀.run? ringing = some s ∧ s.step? (.read (.failed (.link "unplugged"))) = some t ∧
    t.isAlive = false ∧ t.lifecycle.told.map (·.1) = [7, 8] ∧ t.pending = 1 ∧
    t.pumpState = .cutOff ∧ t.run? [.turn 0, .pass 60000, .turn 0] = some u ∧
    u.stage? 0 = some (.forReply 1) ∧ u.hub.stream.closed = false ∧
    t.linkHistory [.turn 0, .pass 60000, .turn 0] = [] := by
  have hbroken : ∀ {s₀ s t u : Session} {call : Call}, ofSettings { maxFailures := 0 } = .ok s₀ →
      s₀.run? ringing = some s → s.IsRunning →
      s.lifecycle = { listeners := [⟨7, false⟩, ⟨8, true⟩, ⟨9, false⟩] } →
      s.verdict? (.read (.failed (.link "unplugged"))) =
        some (.giveUp "read failed: transport error: unplugged") →
      s.step? (.read (.failed (.link "unplugged"))) = some t →
      t.run? [.turn 0, .pass 60000, .turn 0] = some u → u.cancelled = false →
      t.calls[0]? = some call → call.stage = .forReply 1 → call.deadline = none →
      t.reply? 1 = none →
      t.isAlive = false ∧ t.lifecycle.told.map (·.1) = [7, 8] ∧ t.pumpState = .cutOff ∧
        u.stage? 0 = some (.forReply 1) ∧ u.hub.stream.closed = false ∧
        t.linkHistory [.turn 0, .pass 60000, .turn 0] = [] := by
    intro s₀ s t u call h₀ hs hrun hlife hverdict hstep hlater hkept hcall hstage hlimit hreply
    obtain ⟨hdead, -, hbroken⟩ :=
      broken_off_by_listener ⟨_, s₀, ringing, h₀, hs⟩ hrun hstep hverdict
    obtain ⟨htold, -, hcut, -, hruns⟩ := hbroken [⟨7, false⟩] ⟨8, true⟩ [⟨9, false⟩]
      (by rw [hlife]; rfl) (by decide) rfl
    obtain ⟨-, -, hlink, hwaits, -⟩ := hruns _ u hlater
    obtain ⟨-, -, hstream, hstay⟩ := hwaits hkept
    have hcall' := hstay 0 call 1 hcall hstage hlimit hreply (by simp)
    refine ⟨hdead, ?_, hcut, by rw [stage?, hcall', Option.map_some, hstage], hstream, hlink⟩
    rw [htold, hlife]
    rfl
  have h₀ : ofSettings { maxFailures := 0 } = .ok _ := rfl
  obtain ⟨hdead, htold, hcut, hstage, hstream, hlink⟩ := hbroken h₀
    (Option.some_get (by decide +kernel)).symm ⟨by decide +kernel, by decide +kernel⟩
    (by decide +kernel) (by decide +kernel)
    (Option.some_get (by decide +kernel)).symm (Option.some_get (by decide +kernel)).symm
    (by decide +kernel) (Option.some_get (by decide +kernel)).symm (by decide +kernel)
    (by decide +kernel) (by decide +kernel)
  exact ⟨_, _, _, _, h₀, (Option.some_get _).symm, (Option.some_get _).symm, hdead, htold,
    by decide +kernel, hcut, (Option.some_get _).symm, hstage, hstream, hlink⟩

end Session

end BleHost
