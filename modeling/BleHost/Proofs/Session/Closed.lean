import BleHost.Proofs.Session.Awake

/-!
# Closed sessions

What has been noted, told or closed stays so (`Grown`), and so does whatever is settled about a
call. Once a session is closed (`IsClosed`), something is settled about every call that is not over
(`exists_outcome`): a turn of its caller ends it with that, if its turn in the line has come, and
nothing else can happen to it except that it is given up, or that its time runs out while it stands
in line (`fares_of_run`). When no caller has a reason to take a turn any more, no call is left but
exchanges for which nobody waits (`over_or_held`), and such turns come to an end (`acc_stirs`).
-/

namespace BleHost

namespace Session

variable {i j : Nat} {s t u : Session} {call : Call} {hs : List (Session × Frame)}
  {action : Action} {actions : List Action} {result : Except Error Outcome}

/-! ### What stays as it is -/

/-- What has been noted, told or closed in a session is so in a later one. -/
structure Grown (s t : Session) : Prop where
  dead : s.lifecycle.dead = true → t.lifecycle.dead = true
  stopped : s.pumpState.isOver = true → t.pumpState.isOver = true
  silent : s.outstanding.closed = true → t.outstanding.closed = true
  closed : s.outbound.closed = true → t.outbound.closed = true
  receipts : s.receipts <+: t.receipts
  replies : s.replies <+: t.replies

namespace Grown

theorem refl (s : Session) : Grown s s :=
  ⟨id, id, id, id, List.prefix_refl _, List.prefix_refl _⟩

theorem trans (h : Grown s t) (h' : Grown t u) : Grown s u where
  dead := fun hs => h'.dead (h.dead hs)
  stopped := fun hs => h'.stopped (h.stopped hs)
  silent := fun hs => h'.silent (h.silent hs)
  closed := fun hs => h'.closed (h.closed hs)
  receipts := h.receipts.trans h'.receipts
  replies := h.replies.trans h'.replies

theorem of_move (hmove : Move i s t) : Grown s t := by
  have hsame := refl s
  cases hmove with
  | queue hcall hstage hturn hlive hclaims hopen hroom hready =>
    exact { hsame with silent := fun hs => hclaims.closed.trans hs }
  | block hcall hstage hturn hlive hclaims hopen hroom =>
    exact { hsame with silent := fun hs => hclaims.closed.trans hs }
  | refuse bytes hcall hstage hturn hlive hclaims hclosed =>
    exact { hsame with silent := fun hs => hclaims.closed.trans hs }
  | finish hcall hgoing hover hready =>
    exact { hsame with
      silent := fun hs => (closed_withoutWaiter ..).trans hs
      closed := fun hs => (closed_withoutCaller ..).trans hs }
  | stop => exact { hsame with dead := fun _ => rfl }
  | takeDown hreleased hfirst hneed => exact { hsame with dead := fun _ => rfl }
  | hush hstopped hready =>
    exact { hsame with silent := fun _ => rfl, replies := List.prefix_append _ _ }
  | cutOff hdown hsilent hneed hready =>
    exact { hsame with
      stopped := fun _ => rfl, closed := fun _ => rfl, receipts := List.prefix_append _ _ }
  | wrote outcome hpump hrun hqueued hready =>
    exact { hsame with
      closed := fun hs => (Outbound.closed_pop _).trans hs
      receipts := List.prefix_append _ _ }
  | goOn hpump hrun hnew =>
    refine { hsame with stopped := fun hs => ?_ }
    rw [hrun.2] at hs
    cases hs
  | conclude hpump hrun hstops hready =>
    refine ⟨?_, fun _ => rfl, fun _ => rfl, fun _ => rfl, List.prefix_append _ _,
      List.prefix_append _ _⟩
    intro hdead
    cases hstops with
    | halted hcancel => exact hdead
    | lost cause hcancel hb => exact Lifecycle.dead_terminate _ _
  | breakOff hpump hrun hb hready =>
    exact ⟨fun _ => Lifecycle.dead_terminate _ _, fun _ => rfl, id, fun _ => rfl,
      List.prefix_append _ _, List.prefix_refl _⟩
  | _ => exact { hsame with }

theorem of_route (s : Session) (frame : Frame) : Grown s (s.route frame) := by
  have hsame := refl s
  obtain ⟨outstanding, news, hub, ready, heq, hsilent, -⟩ := route_eq s frame
  rw [heq]
  exact { hsame with
    silent := fun hs => hsilent.trans hs
    replies := List.prefix_append _ _ }

theorem of_moves (hmoves : Moves i hs s t) : Grown s t := by
  induction hmoves with
  | refl s => exact refl s
  | move hmove hrest ih => exact (of_move hmove).trans ih
  | route hrun hrest ih => exact (of_route _ _).trans ih

theorem of_step? (hstep : s.step? action = some t) : Grown s t := by
  have hmoves := of_moves (moves_of_step? hstep)
  exact { hmoves with }

theorem of_run? (hrun : s.run? actions = some t) : Grown s t :=
  run?_induction (fun _ _ _ hs hstep => trans hs (of_step? hstep)) hrun (refl s)

/-! ### What is settled stays settled -/

theorem lookup_of_prefix {α : Type} {l l' : List (Nat × α)} {key : Nat} {a : α} (h : l <+: l')
    (hl : (l.find? (·.1 == key)).map (·.2) = some a) :
    (l'.find? (·.1 == key)).map (·.2) = some a := by
  obtain ⟨rest, rfl⟩ := h
  obtain ⟨r, hfind, rfl⟩ := Option.map_eq_some_iff.1 hl
  rw [List.find?_append, hfind]
  rfl

theorem answer? (h : Grown s t) {request : Request} {waiter : Nat}
    (hs : s.answer? request waiter = some result) : t.answer? request waiter = some result := by
  obtain ⟨reply, hreply, heq⟩ := Option.map_eq_some_iff.1 hs
  rw [Session.answer?, Session.reply?, lookup_of_prefix h.replies hreply, ← heq, Option.map_some]

theorem report? (h : Grown s t) {request : Request} {ticket : Nat} {waiter : Option Nat}
    (hs : s.report? request ticket waiter = some result) :
    t.report? request ticket waiter = some result := by
  unfold Session.report? at hs ⊢
  rcases hreceipt : s.receipt? ticket with _ | outcome
  · rw [hreceipt] at hs
    cases hs
  · rw [show t.receipt? ticket = some outcome from lookup_of_prefix h.receipts hreceipt]
    rw [hreceipt] at hs
    cases outcome with
    | error e => exact hs
    | ok written =>
      cases waiter with
      | none => exact hs
      | some waiter => exact h.answer? hs

theorem outcome? (h : Grown s t) (hs : s.outcome? call = some result) :
    t.outcome? call = some result := by
  unfold Session.outcome? at hs ⊢
  cases hstage : call.stage with
  | inLine =>
    rw [hstage] at hs
    dsimp only at hs ⊢
    split at hs
    · rename_i hended
      rw [if_pos, hs]
      rw [Bool.or_eq_true] at hended ⊢
      exact hended.imp h.dead h.silent
    · cases hs
  | forSlot bytes waiter =>
    rw [hstage] at hs
    dsimp only at hs ⊢
    split at hs
    · rename_i hclosed
      rw [if_pos (h.closed hclosed), hs]
    · cases hs
  | forWrite ticket waiter =>
    rw [hstage] at hs
    exact h.report? hs
  | held ticket waiter =>
    rw [hstage] at hs
    exact h.report? hs
  | forReply waiter =>
    rw [hstage] at hs
    exact h.answer? hs
  | forPump =>
    rw [hstage] at hs
    dsimp only at hs ⊢
    split at hs
    · rename_i hover
      rw [if_pos (h.stopped hover), hs]
    · cases hs
  | _ =>
    rw [hstage] at hs
    cases hs

end Grown

/-! ### What is settled once a session is closed -/

/-- The pump has stopped, and nobody waits for a response any more. -/
structure IsClosed (s : Session) : Prop where
  stopped : s.pumpState.isOver = true
  silent : s.outstanding.closed = true

namespace IsClosed

theorem step (h : s.IsClosed) (hstep : s.step? action = some t) : t.IsClosed :=
  have hgrown := Grown.of_step? hstep
  ⟨hgrown.stopped h.stopped, hgrown.silent h.silent⟩

theorem run (h : s.IsClosed) (hrun : s.run? actions = some t) : t.IsClosed :=
  run?_induction (fun _ _ _ hs hstep => step hs hstep) hrun h

/-- Each frame that was queued has a receipt. -/
theorem exists_receipt (h : s.IsClosed) (hs : s.Reachable) (hcall : s.calls[j]? = some call)
    {ticket : Nat} (hplace : call.stage.place = .frame ticket) :
    ∃ outcome, s.receipt? ticket = some outcome := by
  have hqueue := QueueSound.of_reachable hs
  have hclosed : s.outbound.closed = true :=
    (LifeSound.of_reachable hs).outbound_closed.trans h.stopped
  have hget := QueueSound.getElem?_places hcall
  rw [hplace] at hget
  refine Option.ne_none_iff_exists'.1 fun hnone => ?_
  rcases hqueue.reported j ticket hget with hmem | ⟨outcome, hmem⟩
  · rw [(hqueue.empty hclosed).1] at hmem
    exact absurd hmem List.not_mem_nil
  · exact receipt?_eq_none.1 hnone outcome hmem

/-- Each waiter that a call keeps has been told something. -/
theorem exists_reply (h : s.IsClosed) (hs : s.Reachable) (hcall : s.calls[j]? = some call)
    {waiter : Nat} (hwaiter : call.stage.waiter? = some waiter) :
    ∃ reply, s.reply? waiter = some reply := by
  have hwaiters := WaitersSound.of_reachable hs
  have hget := WaitersSound.getElem?_holdings hcall
  rw [Call.holding, hwaiter] at hget
  refine Option.ne_none_iff_exists'.1 fun hnone => ?_
  obtain ⟨command, -, hmem | ⟨reply, hmem⟩⟩ := hwaiters.kept j _ waiter hget
  · rw [hwaiters.empty h.silent] at hmem
    exact absurd hmem List.not_mem_nil
  · exact reply?_eq_none.1 hnone reply hmem

theorem exists_answer (h : s.IsClosed) (hs : s.Reachable) (hcall : s.calls[j]? = some call)
    {waiter : Nat} (hwaiter : call.stage.waiter? = some waiter) :
    ∃ result, s.answer? call.request waiter = some result := by
  obtain ⟨reply, hreply⟩ := h.exists_reply hs hcall hwaiter
  exact ⟨_, by rw [answer?, hreply, Option.map_some]⟩

theorem exists_report (h : s.IsClosed) (hs : s.Reachable) (hcall : s.calls[j]? = some call)
    {ticket : Nat} {waiter : Option Nat} (hplace : call.stage.place = .frame ticket)
    (hwaiter : call.stage.waiter? = waiter) :
    ∃ result, s.report? call.request ticket waiter = some result := by
  obtain ⟨outcome, hreceipt⟩ := h.exists_receipt hs hcall hplace
  unfold report?
  rw [hreceipt]
  cases outcome with
  | error e => exact ⟨_, rfl⟩
  | ok written =>
    cases waiter with
    | none => exact ⟨_, rfl⟩
    | some waiter => exact h.exists_answer hs hcall hwaiter

/-- Something is settled about every call that is not over. -/
theorem exists_outcome (h : s.IsClosed) (hs : s.Reachable) (hcall : s.calls[j]? = some call)
    (hgoing : call.stage.isOver = false) : ∃ result, s.outcome? call = some result := by
  unfold outcome?
  cases hstage : call.stage with
  | inLine => exact ⟨_, if_pos (by rw [h.silent, Bool.or_true])⟩
  | forSlot bytes waiter =>
    exact ⟨_, if_pos ((LifeSound.of_reachable hs).outbound_closed.trans h.stopped)⟩
  | forWrite ticket waiter =>
    exact h.exists_report hs hcall (by rw [hstage]; rfl) (by rw [hstage]; rfl)
  | held ticket waiter =>
    exact h.exists_report hs hcall (by rw [hstage]; rfl) (by rw [hstage]; rfl)
  | forReply waiter => exact h.exists_answer hs hcall (by rw [hstage]; rfl)
  | forPump => exact ⟨_, if_pos h.stopped⟩
  | ended time result => simp [hstage, Stage.isOver] at hgoing
  | dropped => simp [hstage, Stage.isOver] at hgoing

/-- Only exchanges for which nobody waits, and those whose turn has not come, cannot go on. -/
theorem canGoOn (h : s.IsClosed) (hs : s.Reachable) (hcall : s.calls[j]? = some call)
    (hgoing : call.stage.isOver = false) (hheld : s.isHeld j = false)
    (hline : call.stage = .inLine → s.line.head? = some j) : s.CanGoOn j call := by
  unfold CanGoOn
  cases hstage : call.stage with
  | inLine => exact hline hstage
  | forSlot bytes waiter => exact .inl ((LifeSound.of_reachable hs).outbound_closed.trans h.stopped)
  | forWrite ticket waiter =>
    obtain ⟨outcome, hreceipt⟩ := h.exists_receipt hs hcall
      (by rw [hstage]; rfl : call.stage.place = .frame ticket)
    by_contra hnone
    rw [receipt?_eq_none.2 fun outcome hmem => hnone ⟨outcome, hmem⟩] at hreceipt
    cases hreceipt
  | forReply waiter =>
    obtain ⟨reply, hreply⟩ := h.exists_reply hs hcall
      (by rw [hstage]; rfl : call.stage.waiter? = some waiter)
    by_contra hnone
    rw [reply?_eq_none.2 fun reply hmem => hnone ⟨reply, hmem⟩] at hreply
    cases hreply
  | forPump => exact h.stopped
  | held ticket waiter => simp [isHeld, stage?_eq hcall, hstage] at hheld
  | ended time result => simp [hstage, Stage.isOver] at hgoing
  | dropped => simp [hstage, Stage.isOver] at hgoing

theorem held_or_waits_or_canGoOn (h : s.IsClosed) (hs : s.Reachable)
    (hcall : s.calls[j]? = some call) (hgoing : call.stage.isOver = false) :
    s.isHeld j = true ∨ (call.stage = .inLine ∧ s.line.head? ≠ some j) ∨ s.CanGoOn j call := by
  by_cases hheld : s.isHeld j = true
  · exact .inl hheld
  · by_cases hhead : call.stage = .inLine ∧ s.line.head? ≠ some j
    · exact .inr (.inl hhead)
    · refine .inr (.inr (h.canGoOn hs hcall hgoing (by simpa using hheld) fun hstage => ?_))
      by_contra hne
      exact hhead ⟨hstage, hne⟩

/-- A call that can go on ends with what is settled about it. -/
theorem calls_advance (h : s.IsClosed) (hlife : s.LifeSound) (hcall : s.calls[i]? = some call)
    (hgo : s.CanGoOn i call)
    (hexclusive : call.stage = .inLine → call.request.exclusive?.isSome = true)
    (hresult : s.outcome? call = some result) :
    (s.advance i call).calls = s.calls.modify i (·.atStage (.ended s.now result)) := by
  have hdead := hlife.dead_of_isOver h.stopped
  have hclosed := hlife.outbound_closed.trans h.stopped
  unfold CanGoOn at hgo
  unfold outcome? at hresult
  cases hstage : call.stage with
  | inLine =>
    rw [hstage] at hgo hresult
    dsimp only at hgo hresult
    rw [if_pos (by rw [hdead, Bool.true_or])] at hresult
    obtain ⟨command, hcommand⟩ := Option.isSome_iff_exists.1 (hexclusive hstage)
    simp only [advance, hstage, hcommand, hgo, if_true]
    rw [beginExchange, if_pos hdead, ← Option.some.inj hresult, calls_finish]
  | forSlot bytes waiter =>
    have hself : s.setStage i (.forSlot bytes waiter) = s := by rw [← hstage, setStage_self hcall]
    rw [hstage] at hresult
    dsimp only at hresult
    rw [if_pos hclosed] at hresult
    simp only [advance, hstage, Outbound.retry, hclosed, if_true, admitted, hself]
    rw [← Option.some.inj hresult, calls_finish]
  | forWrite ticket waiter =>
    rw [hstage] at hresult
    simp only [advance, hstage]
    rw [awaitWrite_of_report hresult, calls_finish]
  | forReply waiter =>
    rw [hstage] at hresult
    simp only [advance, hstage]
    rw [awaitReply_of_answer hresult, calls_finish]
  | forPump =>
    rw [hstage] at hresult
    dsimp only at hresult
    rw [if_pos h.stopped] at hresult
    have hpump : s.awaitPump i = (s.closeOutstanding .dead).closeHub.finish i (.ok .finished) := by
      have hover := h.stopped
      unfold awaitPump
      cases hp : s.pumpState <;> simp_all [PumpState.isOver]
    obtain ⟨ready, heq, -⟩ := closeOutstanding_eq s .dead
    simp only [advance, hstage]
    rw [hpump, ← Option.some.inj hresult, calls_finish, heq]
    rfl
  | _ =>
    rw [hstage] at hgo
    exact absurd hgo id

theorem calls_turn (h : s.IsClosed) (hlife : s.LifeSound) (hcall : s.calls[i]? = some call)
    (hgo : s.CanGoOn i call)
    (hexclusive : call.stage = .inLine → call.request.exclusive?.isSome = true)
    (hresult : s.outcome? call = some result) :
    (s.turn i).calls = s.calls.modify i (·.atStage (.ended s.now result)) := by
  have hcalls := h.calls_advance hlife hcall hgo hexclusive hresult
  have hget : (s.advance i call).calls[i]? = some (call.atStage (.ended s.now result)) := by
    rw [hcalls, getElem?_modify_self hcall]
  have hlate : (s.advance i call).isOverdue i = false := by
    rw [isOverdue, hget]
    rfl
  unfold turn
  rw [hcall]
  dsimp only
  rw [hlate]
  exact hcalls

end IsClosed

/-- A call whose turn has not come stays where it is until its time is over. -/
theorem turn_of_not_head (hcall : s.calls[i]? = some call) (hstage : call.stage = .inLine)
    (hhead : s.line.head? ≠ some i) :
    s.turn i = if s.isOverdue i then s.finish i (.error .timeout) else s := by
  have hstay : s.advance i call = s := by
    simp only [advance, hstage]
    split
    · exact if_neg hhead
    · rfl
  rw [turn, hcall]
  dsimp only
  rw [hstay]

/-- Nothing happens in a turn of a caller whose call is over, or for which nobody waits. -/
theorem turn_of_over_or_held (hcall : s.calls[i]? = some call)
    (hstage : call.stage.isOver = true ∨ s.isHeld i = true) : s.turn i = s := by
  have hstay : s.advance i call = s ∧ call.stage.isTimed = false := by
    unfold isHeld at hstage
    rw [stage?_eq hcall] at hstage
    unfold advance
    cases hs : call.stage <;> simp_all [Stage.isOver, Stage.isTimed]
  rw [turn, hcall]
  dsimp only
  rw [hstay.1, isOverdue, hcall]
  simp [hstay.2]

/-! ### How calls fare in a closed session -/

/-- At a time during a run a call is made, or its caller takes a turn, while another call is first
in line. -/
def IsBehind (s : Session) (actions : List Action) (j time : Nat) : Prop :=
  ∃ before action after u first, actions = before ++ action :: after ∧ s.run? before = some u ∧
    (action = .turn j ∨ ∃ request, action = .call request ∧ u.calls.length = j) ∧
    u.now = time ∧ u.line.head? = some first ∧ first ≠ j

theorem IsBehind.cons {time : Nat} (h : u.IsBehind actions j time)
    (hstep : s.step? action = some u) : s.IsBehind (action :: actions) j time := by
  obtain ⟨before, own, after, v, first, rfl, hbefore, h⟩ := h
  exact ⟨action :: before, own, after, v, first, rfl,
    run?_cons_eq_some.2 ⟨u, hstep, hbefore⟩, h⟩

theorem isBehind_of_line
    (hown : action = .turn j ∨ ∃ request, action = .call request ∧ s.calls.length = j)
    (hsome : s.line ≠ []) (hhead : s.line.head? ≠ some j) :
    s.IsBehind (action :: actions) j s.now := by
  obtain ⟨first, rest, hline⟩ := List.exists_cons_of_ne_nil hsome
  rw [hline] at hhead
  exact ⟨[], action, actions, s, first, rfl, run?_nil s, hown, rfl, by rw [hline]; rfl,
    fun heq => hhead (congrArg some heq)⟩

/-- What has become of a call about which something was settled when the session was closed: it is
still where it was, it has ended with that, it was given up, or its time ran out in the line while
another call was first. -/
inductive Fares (s : Session) (call : Call) (result : Except Error Outcome)
    (actions : List Action) (t : Session) (j : Nat) : Prop
  | stays (hcall : t.calls[j]? = some call) (hresult : t.outcome? call = some result)
  | ended {call' : Call} {time : Nat} (hcall : t.calls[j]? = some call')
    (hrequest : call'.request = call.request) (hstage : call'.stage = .ended time result)
  | dropped {call' : Call} (hcall : t.calls[j]? = some call')
    (hrequest : call'.request = call.request) (hstage : call'.stage = .dropped)
    (habandon : .abandon j ∈ actions)
  | late {call' : Call} {time : Nat} (hcall : t.calls[j]? = some call')
    (hrequest : call'.request = call.request) (hstage : call'.stage = .ended time (.error .timeout))
    (hline : call.stage = .inLine) (hlate : call.deadline.any (· ≤ time) = true)
    (hbehind : s.IsBehind actions j time)

/-- What a turn of its caller does to a call: nothing if nobody waits for it, or if its turn in the
line has not come and its time is not over. -/
theorem fares_of_turn (h : s.IsClosed) (hlife : s.LifeSound) (hcall : s.calls[j]? = some call)
    (hexclusive : call.stage = .inLine → call.request.exclusive?.isSome = true)
    (hresult : s.outcome? call = some result)
    (hwhere : s.isHeld j = true ∨ (call.stage = .inLine ∧ s.line.head? ≠ some j) ∨
      s.CanGoOn j call)
    (hbehind : call.stage = .inLine → s.line.head? ≠ some j → u.IsBehind actions j s.now) :
    u.Fares call result actions (s.turn j) j := by
  rcases hwhere with hheld | ⟨hstage, hhead⟩ | hgo
  · rw [turn_of_over_or_held hcall (.inr hheld)]
    exact .stays hcall hresult
  · rw [turn_of_not_head hcall hstage hhead]
    split
    · rename_i hlate
      have hover : (s.finish j (.error .timeout)).calls[j]? =
          some (call.atStage (.ended s.now (.error .timeout))) := by
        rw [calls_finish, getElem?_modify_self hcall]
      rw [isOverdue, hcall, Bool.and_eq_true] at hlate
      exact .late hover rfl rfl hstage hlate.2 (hbehind hstage hhead)
    · exact .stays hcall hresult
  · have hover : (s.turn j).calls[j]? = some (call.atStage (.ended s.now result)) := by
      rw [h.calls_turn hlife hcall hgo hexclusive hresult, getElem?_modify_self hcall]
    exact .ended hover rfl rfl

/-- Somebody who waits for an exchange about which something is settled learns it at once. -/
theorem stage_await (h : s.IsClosed) (hlife : s.LifeSound) (hcall : s.calls[j]? = some call)
    {ticket waiter : Nat} (hstage : call.stage = .held ticket waiter)
    (hresult : s.outcome? call = some result) (limit : Option Nat) :
    ∃ call', (s.await j limit).calls[j]? = some call' ∧ call'.request = call.request ∧
      call'.stage = .ended s.now result := by
  have hreport : s.report? call.request ticket (some waiter) = some result := by
    rwa [outcome?, hstage] at hresult
  generalize hawaited : ({ call with
    deadline := limit.map (s.now + ·), stage := .forWrite ticket (some waiter) } : Call) = awaited
  have hstage' : awaited.stage = .forWrite ticket (some waiter) := by rw [← hawaited]
  generalize ht : ({ s with
    calls := s.calls.modify j fun (c : Call) =>
      { c with deadline := limit.map (s.now + ·), stage := .forWrite ticket (some waiter) }
    }.setAlarm (.caller j)) = t
  have hawait : s.await j limit = t.turn j := by
    rw [await, stage?_eq hcall, hstage, ← ht]
  have hclosed : t.IsClosed := by
    rw [← ht]
    exact ⟨h.stopped, h.silent⟩
  have hlife' : t.LifeSound := by
    rw [← ht]
    exact { hlife with }
  have hcall' : t.calls[j]? = some awaited := by
    rw [← ht, ← hawaited]
    exact getElem?_modify_self hcall _
  have hresult' : t.outcome? awaited = some result := by
    rw [outcome?, hstage', ← ht, ← hawaited]
    exact hreport
  have hgo : t.CanGoOn j awaited := by
    rw [CanGoOn, hstage']
    by_contra hnone
    have hreceipt := receipt?_eq_none.2 fun outcome hmem => hnone ⟨outcome, hmem⟩
    rw [outcome?, hstage'] at hresult'
    dsimp only at hresult'
    rw [report?, hreceipt] at hresult'
    cases hresult'
  have hcalls := hclosed.calls_turn hlife' hcall' hgo (by simp [hstage']) hresult'
  refine ⟨awaited.atStage (.ended t.now result), ?_, ?_, ?_⟩
  · rw [hawait, hcalls, getElem?_modify_self hcall']
  · rw [← hawaited]
    rfl
  · rw [← ht]
    rfl

/-- Whatever happens next, a call about which something is settled fares as it should. -/
theorem fares_of_step? (h : s.IsClosed) (hs : s.Reachable) (hcall : s.calls[j]? = some call)
    (hgoing : call.stage.isOver = false) (hresult : s.outcome? call = some result)
    (hstep : s.step? action = some t) : s.Fares call result (action :: actions) t j := by
  have hlife := LifeSound.of_reachable hs
  have hresult' := (Grown.of_step? hstep).outcome? hresult
  by_cases hown : s.IsOwn j action
  · cases action with
    | call request =>
      obtain rfl : s.calls.length = j := hown
      simp at hcall
    | await index limit =>
      obtain rfl : index = j := hown
      rw [← Option.some.inj hstep] at hresult' ⊢
      cases hstage : call.stage with
      | held ticket waiter =>
        obtain ⟨call', hcall', hrequest, hstage'⟩ :=
          stage_await h hlife hcall hstage hresult limit
        exact .ended hcall' hrequest hstage'
      | _ =>
        have hstay : s.await index limit = s := by rw [await, stage?_eq hcall, hstage]
        rw [hstay]
        exact .stays hcall hresult
    | abandon index =>
      obtain rfl : index = j := hown
      obtain ⟨ready, heq, -⟩ := relinquish_eq s index call.stage
      have habandon : s.abandon index =
          ((s.relinquish index call.stage).setStage index .dropped).takeDownIfUnused := by
        rw [abandon, stage?_eq hcall]
        cases hstage : call.stage <;> simp_all [Stage.isOver]
      have hcall' : t.calls[index]? = some (call.atStage .dropped) := by
        rw [← Option.some.inj hstep, habandon, calls_takeDownIfUnused, setStage_eq, heq]
        exact getElem?_modify_self hcall _
      exact .dropped hcall' rfl rfl List.mem_cons_self
    | turn index =>
      obtain rfl : index = j := hown
      have hexclusive := (awake_of_reachable hs index call hcall).2
      rw [← Option.some.inj hstep]
      refine fares_of_turn (s := { s with ready := s.ready.erase (.caller index) })
        ⟨h.stopped, h.silent⟩ { hlife with } hcall hexclusive hresult
        (h.held_or_waits_or_canGoOn hs hcall hgoing) fun hstage hhead => ?_
      have hmem := ((LineSound.of_reachable hs).mem index).2
        ⟨call, hcall, hexclusive hstage, hgoing⟩
      exact isBehind_of_line (.inl rfl) (List.ne_nil_of_mem hmem) hhead
    | _ => exact absurd hown id
  · obtain ⟨i, hij, hactor⟩ := exists_isActor_ne hown
    exact .stays ((moves_of_isActor hactor hstep).call_of_ne hij hcall) hresult'

theorem call_of_over_of_run (hrun : s.run? actions = some t) (hcall : s.calls[j]? = some call)
    (hover : call.stage.isOver = true) : t.calls[j]? = some call := by
  refine run?_induction (P := fun u => u.calls[j]? = some call) ?_ hrun hcall
  intro u action v hu hstep
  exact (moves_of_step? hstep).call_of_over hu hover

/-- What has become of a call in one step stays so, or is decided later. -/
theorem Fares.step (h : s.Fares call result (action :: actions) u j)
    (hstep : s.step? action = some u) (hrest : u.run? actions = some t)
    (hlater : u.calls[j]? = some call → u.outcome? call = some result →
      u.Fares call result actions t j) : s.Fares call result (action :: actions) t j := by
  have hkept : ∀ {call' : Call}, u.calls[j]? = some call' → call'.stage.isOver = true →
      t.calls[j]? = some call' := fun hu hover => call_of_over_of_run hrest hu hover
  cases h with
  | stays hu hresult =>
    cases hlater hu hresult with
    | stays hcall hresult => exact .stays hcall hresult
    | ended hcall hrequest hstage => exact .ended hcall hrequest hstage
    | dropped hcall hrequest hstage habandon =>
      exact .dropped hcall hrequest hstage (List.mem_cons_of_mem _ habandon)
    | late hcall hrequest hstage hline hlate hbehind =>
      exact .late hcall hrequest hstage hline hlate (hbehind.cons hstep)
  | ended hu hrequest hstage => exact .ended (hkept hu (by rw [hstage]; rfl)) hrequest hstage
  | dropped hu hrequest hstage habandon =>
    exact .dropped (hkept hu (by rw [hstage]; rfl)) hrequest hstage habandon
  | late hu hrequest hstage hline hlate hbehind =>
    exact .late (hkept hu (by rw [hstage]; rfl)) hrequest hstage hline hlate hbehind

theorem fares_of_run (h : s.IsClosed) (hs : s.Reachable) (hcall : s.calls[j]? = some call)
    (hgoing : call.stage.isOver = false) (hresult : s.outcome? call = some result)
    (hrun : s.run? actions = some t) : s.Fares call result actions t j := by
  induction actions generalizing s with
  | nil =>
    obtain rfl : s = t := by simpa using hrun
    exact .stays hcall hresult
  | cons action actions ih =>
    obtain ⟨u, hstep, hrest⟩ := run?_cons_eq_some.1 hrun
    exact (fares_of_step? h hs hcall hgoing hresult hstep).step hstep hrest
      fun hu hresult => ih (h.step hstep) (hs.step hstep) hu hresult hrest

/-! ### Nobody is left waiting -/

/-- An exchange that excludes others is not handed over. -/
theorem isHeld_of_exclusive (hfit : s.CallsFit) (hcall : s.calls[j]? = some call)
    (hexclusive : call.request.exclusive?.isSome = true) : s.isHeld j = false := by
  have hcallFit := hfit j call hcall
  unfold isHeld Call.IsFit at *
  rw [stage?_eq hcall]
  cases hstage : call.stage with
  | held ticket waiter =>
    rw [hstage] at hcallFit
    obtain ⟨command, hrequest⟩ := hcallFit
    rw [hrequest] at hexclusive
    cases hexclusive
  | _ => rfl

/-- When no caller has a reason to take a turn, only exchanges are left for which nobody waits. -/
theorem over_or_held (h : s.IsClosed) (hs : s.Reachable) (hquiet : ∀ j, .caller j ∉ s.ready)
    (hcall : s.calls[j]? = some call) : call.stage.isOver = true ∨ s.isHeld j = true := by
  have hline := LineSound.of_reachable hs
  have hstuck : ∀ {k : Nat} {call : Call}, s.calls[k]? = some call → ¬ s.CanGoOn k call :=
    fun hcall hgo => hquiet _ ((awake_of_reachable hs _ _ hcall).1 hgo)
  by_contra hnot
  rw [not_or, Bool.not_eq_true, Bool.not_eq_true] at hnot
  obtain ⟨hgoing, hheld⟩ := hnot
  have hstage : call.stage = .inLine := by
    by_contra hne
    exact hstuck hcall (h.canGoOn hs hcall hgoing hheld fun he => absurd he hne)
  -- somebody is at the head of the line, and he could go on
  have hmem : j ∈ s.line :=
    (hline.mem j).2 ⟨call, hcall, (awake_of_reachable hs j call hcall).2 hstage, hgoing⟩
  obtain ⟨k, hhead⟩ : ∃ k, s.line.head? = some k := by
    rcases hl : s.line with _ | ⟨k, rest⟩
    · rw [hl] at hmem
      exact absurd hmem List.not_mem_nil
    · exact ⟨k, rfl⟩
  obtain ⟨first, hfirst, hexclusive, hgoing'⟩ := hline.head hhead
  have hheld' := isHeld_of_exclusive (CallsFit.of_reachable hs) hfirst hexclusive
  exact hstuck hfirst (h.canGoOn hs hfirst hgoing' hheld' fun _ => hhead)

/-- The number of calls that are not over. -/
def going (s : Session) : Nat := s.calls.countP fun call => !call.stage.isOver

/-- A caller who has a reason to takes a turn. -/
def Stirs (t s : Session) : Prop := ∃ j, .caller j ∈ s.ready ∧ s.step? (.turn j) = some t

theorem going_lt (hcall : s.calls[j]? = some call) (hgoing : call.stage.isOver = false)
    {stage : Stage} (hover : stage.isOver = true)
    (hcalls : t.calls = s.calls.modify j (·.atStage stage)) : t.going < s.going := by
  obtain ⟨hlt, hget⟩ := List.getElem?_eq_some_iff.1 hcall
  have hset : t.calls = s.calls.set j (call.atStage stage) := by
    rw [hcalls, List.modify_eq_set_getElem?, hcall]
    rfl
  have hpos : 0 < s.going :=
    List.countP_pos_iff.2 ⟨call, List.mem_of_getElem? hcall, by simp [hgoing]⟩
  unfold going at hpos ⊢
  rw [hset, List.countP_set hlt, hget]
  simp only [hgoing, Call.stage_atStage, hover, Bool.not_true, Bool.not_false, if_true,
    Bool.false_eq_true, if_false]
  omega

/-- A turn that is taken for a reason ends a call, or uses up the reason. -/
theorem lt_of_stirs (h : s.IsClosed) (hs : s.Reachable) (hstirs : Stirs t s) :
    t.going < s.going ∨ t.going = s.going ∧ t.ready.length < s.ready.length := by
  obtain ⟨j, hready, hstep⟩ := hstirs
  have hlife := LifeSound.of_reachable hs
  have hshorter : (s.ready.erase (.caller j)).length < s.ready.length := by
    have hpos := List.length_pos_of_mem hready
    rw [List.length_erase_of_mem hready]
    omega
  rw [← Option.some.inj hstep]
  generalize hw : ({ s with ready := s.ready.erase (.caller j) } : Session) = w
  have hcalls : w.calls = s.calls := by rw [← hw]
  have hsame : w.turn j = w → (w.turn j).going < s.going ∨
      (w.turn j).going = s.going ∧ (w.turn j).ready.length < s.ready.length := by
    intro heq
    rw [heq, ← hw]
    exact .inr ⟨rfl, hshorter⟩
  rcases hcall : s.calls[j]? with _ | call
  · refine hsame ?_
    rw [turn, hcalls, hcall]
  · have hcall' : w.calls[j]? = some call := by rw [hcalls, hcall]
    by_cases hgoing : call.stage.isOver = true
    · exact hsame (turn_of_over_or_held hcall' (.inl hgoing))
    · have hgoing' : call.stage.isOver = false := by simpa using hgoing
      rcases h.held_or_waits_or_canGoOn hs hcall hgoing' with hheld | ⟨hstage, hhead⟩ | hgo
      · exact hsame (turn_of_over_or_held hcall' (.inr (by rw [← hw]; exact hheld)))
      · have hturn := turn_of_not_head hcall' hstage (by rw [← hw]; exact hhead)
        by_cases hlate : w.isOverdue j = true
        · rw [if_pos hlate] at hturn
          rw [hturn]
          exact .inl (going_lt hcall hgoing' rfl (by rw [calls_finish, hcalls]))
        · rw [if_neg hlate] at hturn
          exact hsame hturn
      · obtain ⟨result, hresult⟩ := h.exists_outcome hs hcall hgoing'
        have hturn := IsClosed.calls_turn (s := w) (by rw [← hw]; exact ⟨h.stopped, h.silent⟩)
          (by rw [← hw]; exact { hlife with }) hcall' (by rw [← hw]; exact hgo)
          (awake_of_reachable hs j call hcall).2 (by rw [← hw]; exact hresult)
        exact .inl (going_lt hcall hgoing' rfl (by rw [hturn, hcalls]))

/-- Turns that are taken for a reason come to an end. -/
theorem acc_stirs {s : Session} (h : s.IsClosed) (hs : s.Reachable) : Acc Stirs s := by
  refine .intro s fun t hstirs => ?_
  have hless := lt_of_stirs h hs hstirs
  obtain ⟨j, -, hstep⟩ := hstirs
  exact acc_stirs (h.step hstep) (hs.step hstep)
termination_by (s.going, s.ready.length)
decreasing_by
  rcases hless with hless | ⟨heq, hless⟩
  · exact .left _ _ hless
  · rw [heq]
    exact .right _ hless

end Session

end BleHost
