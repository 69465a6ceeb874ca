import BleHost.Proofs.Session.Deeds
import BleHost.Proofs.Session.Dialogue

/-!
# Who waits for what

Two things matter of a call whose response is awaited: the waiter that it keeps, and what has become
of its frame (`Stands`). A deed brings one call in or lets one go, or leaves everybody where he is
(`Turnover`); a frame that has been dealt with changes what is said of one call
(`Wrote.stands_iff`), and a frame that is handed out nothing. What all of these keep holds along a
whole run, as long as the pump is at work (`log_induction`).
-/

namespace BleHost

namespace Session

variable {i j : Nat} {s t u : Session} {call : Call} {w v ticket : Nat} {f : Frame}
  {r r' : Option (Except Error Unit)} {hs : List (Session × Frame)}

/-- Call `i` keeps a waiter, and this is what has become of its frame. -/
def Stands (s : Session) (i w : Nat) (r : Option (Except Error Unit)) : Prop :=
  ∃ call : Call, s.calls[i]? = some call ∧ call.stage.waiter? = some w ∧ s.written? call = r

/-- Call `i` has queued the frame with a ticket and is to hear of it. -/
def Sends (s : Session) (i ticket : Nat) : Prop :=
  ∃ call : Call, s.calls[i]? = some call ∧ call.stage.place = .frame ticket

theorem Stands.keeps (h : s.Stands i w r) : s.Keeps i w := by
  obtain ⟨call, hcall, hw, -⟩ := h
  exact ⟨call, hcall, hw⟩

theorem Keeps.stands (h : s.Keeps i w) : ∃ r, s.Stands i w r := by
  obtain ⟨call, hcall, hw⟩ := h
  exact ⟨_, call, hcall, hw, rfl⟩

/-- A call keeps one waiter, and one thing has become of its frame. -/
theorem Stands.eq (h : s.Stands i w r) (h' : s.Stands i v r') : w = v ∧ r = r' := by
  obtain ⟨call, hcall, hw, hr⟩ := h
  obtain ⟨call', hcall', hv, hr'⟩ := h'
  obtain rfl : call = call' := Option.some.inj (hcall.symm.trans hcall')
  exact ⟨Option.some.inj (hw.symm.trans hv), hr.symm.trans hr'⟩

/-- A call has one ticket. -/
theorem Sends.eq {ticket' : Nat} (h : s.Sends i ticket) (h' : s.Sends i ticket') :
    ticket = ticket' := by
  obtain ⟨call, hcall, hticket⟩ := h
  obtain ⟨call', hcall', hticket'⟩ := h'
  obtain rfl : call = call' := Option.some.inj (hcall.symm.trans hcall')
  exact Place.frame.inj (hticket.symm.trans hticket')

theorem stands_iff (hcall : s.calls[i]? = some call) :
    s.Stands i w r ↔ call.stage.waiter? = some w ∧ s.written? call = r := by
  simp [Stands, hcall]

theorem sends_iff (hcall : s.calls[i]? = some call) :
    s.Sends i ticket ↔ call.stage.place = .frame ticket := by
  simp [Sends, hcall]

/-- One call has changed. -/
theorem stands_modify (hcall : s.calls[i]? = some call) {f : Call → Call}
    (hcalls : t.calls = s.calls.modify i f) (hreceipts : t.receipts = s.receipts) :
    t.Stands j w r ↔
      j = i ∧ (f call).stage.waiter? = some w ∧ s.written? (f call) = r ∨
        j ≠ i ∧ s.Stands j w r := by
  by_cases hj : j = i
  · subst hj
    rw [stands_iff (by rw [hcalls, getElem?_modify_self hcall]), written?_congr hreceipts]
    simp
  · simp only [Stands, hcalls, getElem?_modify_of_ne (Ne.symm hj), written?_congr hreceipts]
    simp [hj]

/-- A call that has come in keeps no waiter. -/
theorem stands_enter {entered : Call} (hstage : entered.stage = .inLine)
    (hcalls : t.calls = s.calls ++ [entered]) (hreceipts : t.receipts = s.receipts) :
    t.Stands j w r ↔ s.Stands j w r := by
  unfold Stands
  simp only [hcalls, written?_congr hreceipts]
  constructor
  · rintro ⟨call, hcall, hw, hr⟩
    rcases getElem?_append_cases hcall with ⟨-, rfl⟩ | hcall
    · rw [hstage] at hw
      cases hw
    · exact ⟨call, hcall, hw, hr⟩
  · rintro ⟨call, hcall, hw, hr⟩
    exact ⟨call, by rw [List.getElem?_append_left (List.getElem?_eq_some_iff.1 hcall).1, hcall], hw,
      hr⟩

namespace Sound

/-- A waiter belongs to one call. -/
theorem eq_of_stands (h : s.Sound) (hi : s.Stands i w r) (hj : s.Stands j w r') : i = j :=
  h.waiters.eq_of_keeps hi.keeps hj.keeps

theorem le_lastId (h : s.Sound) (hi : s.Stands i w r) : w ≤ s.outstanding.lastId := by
  obtain ⟨command?, hget⟩ := WaitersSound.getElem?_holdings_of_keeps hi.keeps
  exact h.waiters.le_lastId hget

/-- A ticket belongs to one call. -/
theorem eq_of_sends (h : s.Sound) (hi : s.Sends i ticket) (hj : s.Sends j ticket) : i = j := by
  obtain ⟨call, hcall, hticket⟩ := hi
  obtain ⟨call', hcall', hticket'⟩ := hj
  exact h.tickets.distinct i j call call' ticket hcall hcall' hticket hticket'

theorem ticket_le (h : s.Sound) (hi : s.Sends i ticket) : ticket ≤ s.outbound.lastTicket := by
  obtain ⟨call, hcall, hticket⟩ := hi
  exact h.queue.place_le hcall hticket

/-- Whoever waits belongs to a call. -/
theorem exists_stands (h : s.Sound) {v : Waiter} (hv : v ∈ s.outstanding.waiters) :
    ∃ i r, s.Stands i v.id r := by
  obtain ⟨i, command?, hget⟩ := h.waiters.owned v hv
  rw [List.getElem?_map] at hget
  obtain ⟨call, hcall, hholding⟩ := Option.map_eq_some_iff.1 hget
  exact ⟨i, _, call, hcall, (Prod.mk.inj hholding).2, rfl⟩

/-- The waiter of a call that is there expects the response to the command of the call. -/
theorem expects_eq (h : s.Sound) (hcall : s.calls[i]? = some call) {v : Waiter}
    (hwaiter : call.stage.waiter? = some v.id) (hv : v ∈ s.outstanding.waiters) :
    ∃ command, call.request.awaited? = some command ∧ v.expects = command.responseId := by
  have hget := WaitersSound.getElem?_holdings hcall
  rw [Call.holding, hwaiter] at hget
  obtain ⟨command, hcommand, hmem | ⟨reply, htold⟩⟩ := h.waiters.kept i _ v.id hget
  · exact ⟨command, hcommand, congrArg Waiter.expects (h.waiters.eq_of_id_eq hv hmem rfl)⟩
  · exact absurd rfl (h.waiters.untold v hv _ htold)

/-- A call whose frame has not been dealt with waits for a slot or in the queue. -/
theorem unwritten_cases (h : s.Sound) (hi : s.Stands i w none) :
    (∃ call : Call, s.calls[i]? = some call ∧ call.stage.place = .slot) ∨
      ∃ o ∈ s.outbound.queued, s.Sends i o.ticket := by
  obtain ⟨call, hcall, hw, hnone⟩ := hi
  rcases h.queue.unwritten_cases hcall hw hnone with ⟨bytes, hstage⟩ | ⟨o, ho, hticket⟩
  · exact .inl ⟨call, hcall, by rw [hstage]; rfl⟩
  · exact .inr ⟨o, ho, call, hcall, hticket⟩

/-- What is in the queue has not been dealt with. -/
theorem unwritten (h : s.Sound) {o : Outgoing} (ho : o ∈ s.outbound.queued)
    (hsends : s.Sends i o.ticket) (hi : s.Stands i w r) : r = none := by
  obtain ⟨call, hcall, hticket⟩ := hsends
  obtain ⟨-, hr⟩ := (stands_iff hcall).1 hi
  rw [← hr]
  exact h.tickets.written?_of_queued hticket (List.mem_map_of_mem ho)

end Sound

/-! ### Deeds -/

/-- What a deed means for those who wait. -/
inductive Turnover (i : Nat) (s t : Session) : Prop
  | same (hstands : ∀ j w r, t.Stands j w r ↔ s.Stands j w r)
    (hwaits : t.outstanding = s.outstanding)
  | joins (expects : Identity) (hnew : ∀ w r, ¬ s.Stands i w r) (hfree : ∀ k, ¬ s.Sends i k)
    (hstands : ∀ j w r, t.Stands j w r ↔
      s.Stands j w r ∨ j = i ∧ w = s.outstanding.lastId + 1 ∧ r = none)
    (hwaits : t.outstanding =
      { s.outstanding with
        lastId := s.outstanding.lastId + 1
        waiters := s.outstanding.waiters ++ [⟨s.outstanding.lastId + 1, expects⟩] })
  | leaves (w : Nat) (r : Option (Except Error Unit)) (hleaving : s.Stands i w r)
    (hstands : ∀ j v r, t.Stands j v r ↔ s.Stands j v r ∧ j ≠ i)
    (hwaits : t.outstanding = s.outstanding.remove w)

/-- A call that keeps what it had stands where it stood. -/
theorem Turnover.of_modify (hcall : s.calls[i]? = some call) {f : Call → Call}
    (hwaiter : (f call).stage.waiter? = call.stage.waiter?)
    (hwritten : ∀ w, call.stage.waiter? = some w → s.written? (f call) = s.written? call)
    (hcalls : t.calls = s.calls.modify i f) (hreceipts : t.receipts = s.receipts)
    (hwaits : t.outstanding = s.outstanding) : Turnover i s t := by
  refine .same ?_ hwaits
  intro j w r
  rw [stands_modify hcall hcalls hreceipts, hwaiter]
  by_cases hj : j = i
  · subst hj
    rw [stands_iff hcall]
    constructor
    · rintro (⟨-, hw, hr⟩ | ⟨hne, -⟩)
      · exact ⟨hw, (hwritten w hw).symm.trans hr⟩
      · exact absurd rfl hne
    · rintro ⟨hw, hr⟩
      exact .inl ⟨rfl, hw, (hwritten w hw).trans hr⟩
  · simp [hj]

/-- A ticket that has not been given out has no receipt. -/
theorem written?_fresh (h : s.Sound)
    (hplace : call.stage.place = .frame (s.outbound.lastTicket + 1)) :
    s.written? call = none := by
  rw [written?_of_place hplace]
  exact receipt?_eq_none.2 fun outcome => h.queue.fresh outcome

theorem written?_of_slot (hplace : call.stage.place = .slot) : s.written? call = none := by
  unfold written?
  cases hstage : call.stage with
  | forWrite ticket waiter =>
    rw [hstage] at hplace
    cases hplace
  | held ticket waiter =>
    rw [hstage] at hplace
    cases hplace
  | forReply waiter =>
    rw [hstage] at hplace
    cases hplace
  | _ => rfl

theorem Deed.turnover (h : Deed i s t) (hs : s.Sound) (hreceipts : t.receipts = s.receipts) :
    Turnover i s t := by
  cases h with
  | idle hcalls hwaits hqueued hline =>
    refine .same ?_ hwaits
    intro j w r
    unfold Stands
    simp only [hcalls, written?_congr hreceipts]
  | enter request deadline hi hcalls hwaits hqueued hline =>
    exact .same (fun _ _ _ => stands_enter rfl hcalls hreceipts) hwaits
  | @claim call command stage hcall hstage hcommand hturn hwaiter hcalls hwaits hoffers hline =>
    have hnone : ∀ w r, ¬ s.Stands i w r := by
      intro w r hst
      have hw := ((stands_iff hcall).1 hst).1
      rw [hstage] at hw
      cases hw
    have hwritten : s.written? (call.atStage stage) = none := by
      rcases hoffers with ⟨hslot, -⟩ | ⟨hticket, -⟩
      · exact written?_of_slot hslot
      · exact written?_fresh hs hticket
    have hfree : ∀ k, ¬ s.Sends i k := by
      intro k hsends
      have hticket := (sends_iff hcall).1 hsends
      rw [hstage] at hticket
      cases hticket
    refine .joins command.responseId hnone hfree ?_ hwaits
    intro j w r
    rw [stands_modify hcall hcalls hreceipts, Call.stage_atStage, hwaiter, hwritten]
    by_cases hj : j = i
    · subst hj
      simp [hnone, eq_comm]
    · simp [hj]
  | @plain call bytes stage hcall hstage hnone hsends hwaiter hcalls hwaits hoffers hline =>
    have hbefore : call.stage.waiter? = none := by
      rw [hstage]
      rfl
    refine .of_modify hcall (hwaiter.trans hbefore.symm) ?_ hcalls hreceipts hwaits
    intro w hw
    rw [hbefore] at hw
    cases hw
  | redeem hcall hstage hwaiter hplace hcalls hwaits hqueued hline =>
    refine .of_modify hcall (hwaiter.trans (by rw [hstage]; rfl)) ?_ hcalls hreceipts hwaits
    intro w hw
    rw [written?_fresh hs hplace, written?_of_slot (by rw [hstage]; rfl)]
  | shift hcall hrequest hwaiter hwritten hplace hleft hpast hcalls hwaits hqueued hline =>
    exact .of_modify hcall hwaiter (fun _ _ => hwritten) hcalls hreceipts hwaits
  | @leave call stage hcall hgoing hover hcalls hwaits hqueued hline =>
    have hnone := Stage.waiter?_eq_none_of_isOver hover
    rcases hw : call.stage.waiter? with _ | w
    · refine .of_modify hcall (hnone.trans hw.symm) ?_ hcalls hreceipts ?_
      · intro v hv
        rw [hw] at hv
        cases hv
      · rw [hwaits, withoutWaiter, hw]
    · refine .leaves w (s.written? call) ⟨call, hcall, hw, rfl⟩ ?_ ?_
      · intro j v r
        rw [stands_modify hcall hcalls hreceipts, Call.stage_atStage, hnone]
        simp [and_comm]
      · rw [hwaits, withoutWaiter, hw]

/-- Whoever waits with a ticket had it before, or has just got the next one. -/
theorem Deed.sends_cases (h : Deed i s t) (hsends : t.Sends j ticket) (hst : t.Stands j w r) :
    s.Sends j ticket ∨ j = i ∧ ticket = s.outbound.lastTicket + 1 := by
  obtain ⟨call', hj, hticket⟩ := hsends
  have hw := ((stands_iff hj).1 hst).1
  by_cases hij : j = i
  · subst hij
    cases h with
    | idle hcalls hwaits hqueued hline => exact .inl ⟨call', hcalls ▸ hj, hticket⟩
    | enter request deadline hi hcalls hwaits hqueued hline =>
      rw [hcalls, hi, List.getElem?_concat_length] at hj
      rw [← Option.some.inj hj] at hticket
      cases hticket
    | claim hcall hstage hcommand hturn hwaiter hcalls hwaits hoffers hline =>
      rw [hcalls, getElem?_modify_self hcall] at hj
      rw [← Option.some.inj hj, Call.stage_atStage] at hticket
      rcases hoffers with ⟨hslot, -⟩ | ⟨hplace, -⟩
      · rw [hslot] at hticket
        cases hticket
      · exact .inr ⟨rfl, Place.frame.inj (hticket.symm.trans hplace)⟩
    | plain hcall hstage hnone hsends hwaiter hcalls hwaits hoffers hline =>
      rw [hcalls, getElem?_modify_self hcall] at hj
      rw [← Option.some.inj hj, Call.stage_atStage, hwaiter] at hw
      cases hw
    | redeem hcall hstage hwaiter hplace hcalls hwaits hqueued hline =>
      rw [hcalls, getElem?_modify_self hcall] at hj
      rw [← Option.some.inj hj, Call.stage_atStage, hplace] at hticket
      exact .inr ⟨rfl, (Place.frame.inj hticket).symm⟩
    | shift hcall hrequest hwaiter hwritten hplace hleft hpast hcalls hwaits hqueued hline =>
      rw [hcalls, getElem?_modify_self hcall] at hj
      rw [← Option.some.inj hj] at hticket
      exact .inl ⟨_, hcall, hplace ticket hticket⟩
    | leave hcall hgoing hover hcalls hwaits hqueued hline =>
      rw [hcalls, getElem?_modify_self hcall] at hj
      rw [← Option.some.inj hj, Call.stage_atStage, Stage.waiter?_eq_none_of_isOver hover] at hw
      cases hw
  · exact .inl ⟨call', (h.call_of_ne hij).symm.trans hj, hticket⟩

/-- Whoever waits with a ticket keeps it until his frame has been dealt with. -/
theorem Deed.sends (h : Deed i s t) (hsends : s.Sends j ticket) (hst : s.Stands j w none)
    (hst' : t.Stands j v r) : t.Sends j ticket := by
  obtain ⟨call, hj, hticket⟩ := hsends
  have hnone := ((stands_iff hj).1 hst).2
  by_cases hij : j = i
  · subst hij
    have hsame : ∀ {call' : Call}, s.calls[j]? = some call' → call' = call := fun hcall =>
      Option.some.inj (hcall.symm.trans hj)
    cases h with
    | idle hcalls hwaits hqueued hline => exact ⟨call, hcalls ▸ hj, hticket⟩
    | enter request deadline hi hcalls hwaits hqueued hline =>
      refine ⟨call, ?_, hticket⟩
      rw [hcalls, List.getElem?_append_left (List.getElem?_eq_some_iff.1 hj).1, hj]
    | claim hcall hstage hcommand hturn hwaiter hcalls hwaits hoffers hline =>
      rw [← hsame hcall, hstage] at hticket
      cases hticket
    | plain hcall hstage hnone hsends hwaiter hcalls hwaits hoffers hline =>
      rw [← hsame hcall, hstage] at hticket
      cases hticket
    | redeem hcall hstage hwaiter hplace hcalls hwaits hqueued hline =>
      rw [← hsame hcall, hstage] at hticket
      cases hticket
    | shift hcall hrequest hwaiter hwritten hplace hleft hpast hcalls hwaits hqueued hline =>
      obtain rfl := hsame hcall
      rcases hleft ticket hticket with hticket' | hwritten'
      · exact ⟨_, by rw [hcalls, getElem?_modify_self hcall], hticket'⟩
      · rw [hnone] at hwritten'
        cases hwritten'
    | leave hcall hgoing hover hcalls hwaits hqueued hline =>
      have hw := ((stands_iff (by rw [hcalls, getElem?_modify_self hcall])).1 hst').1
      rw [Call.stage_atStage, Stage.waiter?_eq_none_of_isOver hover] at hw
      cases hw
  · exact ⟨call, (h.call_of_ne hij).trans hj, hticket⟩

/-- What a deed queues: nothing, or one frame for the call, with the next ticket. -/
theorem Deed.queued_cases (h : Deed i s t) :
    t.outbound.queued = s.outbound.queued ∨
      ∃ bytes call, t.outbound.queued =
          s.outbound.queued ++ [⟨s.outbound.lastTicket + 1, bytes⟩] ∧
        t.calls[i]? = some call ∧ call.stage.place = .frame (s.outbound.lastTicket + 1) := by
  cases h with
  | idle hcalls hwaits hqueued hline => exact .inl hqueued
  | enter request deadline hi hcalls hwaits hqueued hline => exact .inl hqueued
  | claim hcall hstage hcommand hturn hwaiter hcalls hwaits hoffers hline =>
    rcases hoffers with ⟨-, hqueued⟩ | ⟨hplace, hqueued⟩
    · exact .inl hqueued
    · exact .inr ⟨_, _, hqueued, by rw [hcalls, getElem?_modify_self hcall], hplace⟩
  | plain hcall hstage hnone hsends hwaiter hcalls hwaits hoffers hline =>
    rcases hoffers with ⟨-, hqueued⟩ | ⟨hplace, hqueued⟩
    · exact .inl hqueued
    · exact .inr ⟨_, _, hqueued, by rw [hcalls, getElem?_modify_self hcall], hplace⟩
  | redeem hcall hstage hwaiter hplace hcalls hwaits hqueued hline =>
    exact .inr ⟨_, _, hqueued, by rw [hcalls, getElem?_modify_self hcall], hplace⟩
  | shift hcall hrequest hwaiter hwritten hplace hleft hpast hcalls hwaits hqueued hline =>
    exact .inl hqueued
  | leave hcall hgoing hover hcalls hwaits hqueued hline => exact .inl hqueued

/-! ### Frames that are sent and received -/

/-- The link has answered to the first frame in the queue. -/
structure Wrote (o : Outgoing) (outcome : Except Error Unit) (s t : Session) : Prop where
  running : s.IsRunning
  going : t.IsRunning
  queued : s.outbound.queued = o :: t.outbound.queued
  calls : t.calls = s.calls
  receipts : t.receipts = s.receipts ++ [(o.ticket, outcome)]
  outstanding : t.outstanding = s.outstanding
  replies : t.replies = s.replies
  line : t.line = s.line

theorem Wrote.later {o : Outgoing} {outcome : Except Error Unit} (h : Wrote o outcome s t) :
    Later s t :=
  .of_calls_eq h.calls (by rw [h.outstanding]) (by rw [h.outstanding]; exact List.Subset.refl _)

theorem Wrote.sends_iff {o : Outgoing} {outcome : Except Error Unit} (h : Wrote o outcome s t) :
    t.Sends j ticket ↔ s.Sends j ticket := by
  unfold Sends
  rw [h.calls]

/-- Only of the call whose frame it was something else is to be said. -/
theorem Wrote.stands_iff {o : Outgoing} {outcome : Except Error Unit} (h : Wrote o outcome s t)
    (hs : s.Sound) :
    t.Stands j w r ↔
      s.Stands j w r ∧ ¬ s.Sends j o.ticket ∨
        s.Keeps j w ∧ s.Sends j o.ticket ∧ r = some outcome := by
  have hmem : o ∈ s.outbound.queued := h.queued ▸ List.mem_cons_self
  have hreceipt := fun ticket => receipt?_append outcome ticket h.receipts
    (hs.tickets.unreported (List.mem_map_of_mem hmem))
  rcases hcall : s.calls[j]? with _ | call
  · simp [Stands, Keeps, h.calls, hcall]
  · rw [Session.stands_iff hcall, Session.sends_iff hcall,
      Session.stands_iff (by rw [h.calls, hcall])]
    have hkeeps : s.Keeps j w ↔ call.stage.waiter? = some w := by simp [Keeps, hcall]
    rw [hkeeps]
    by_cases hplace : call.stage.place = .frame o.ticket
    · rw [written?_of_place hplace, hreceipt, if_pos rfl]
      simp [hplace, eq_comm]
    · have hsame : t.written? call = s.written? call := by
        cases hstage : call.stage with
        | forWrite ticket waiter =>
          rw [hstage] at hplace
          rw [written?_of_place (by rw [hstage]; rfl), written?_of_place (by rw [hstage]; rfl),
            hreceipt, if_neg fun he => hplace (congrArg Place.frame he)]
        | held ticket waiter =>
          rw [hstage] at hplace
          rw [written?_of_place (by rw [hstage]; rfl), written?_of_place (by rw [hstage]; rfl),
            hreceipt, if_neg fun he => hplace (congrArg Place.frame he)]
        | _ => rw [written?, written?, hstage]
      rw [hsame]
      simp [hplace]

theorem stands_route (s : Session) (f : Frame) :
    (s.route f).Stands j w r ↔ s.Stands j w r := by
  obtain ⟨outstanding, news, hub, ready, heq, -⟩ := route_eq s f
  rw [heq]
  rfl

theorem sends_route (s : Session) (f : Frame) :
    (s.route f).Sends j ticket ↔ s.Sends j ticket := by
  unfold Sends
  rw [calls_route]

theorem queued_route (s : Session) (f : Frame) :
    (s.route f).outbound.queued = s.outbound.queued := by
  obtain ⟨outstanding, news, hub, ready, heq, -⟩ := route_eq s f
  rw [heq]

/-! ### Along a run -/

variable {action : Action} {actions : List Action} {past : List (Session × Transfer)}

theorem Later.of_moves (hmoves : Moves i hs s t) : Later s t := by
  induction hmoves with
  | refl s => exact .refl s
  | move hmove hrest ih => exact (Later.of_move hmove).trans ih
  | route hrun hrest ih => exact (Later.of_route _ _).trans ih

theorem Later.of_run? (hrun : s.run? actions = some t) : Later s t := by
  induction actions generalizing s with
  | nil =>
    obtain rfl : s = t := by simpa using hrun
    exact .refl s
  | cons action actions ih =>
    obtain ⟨u, hstep, hrest⟩ := run?_cons_eq_some.1 hrun
    have hpump : Later s { s with pump := s.pumpAfter action } :=
      .of_calls_eq rfl (Nat.le_refl _) (List.Subset.refl _)
    exact (hpump.trans (.of_moves (moves_of_step? hstep))).trans (ih hrest)

/-- Whatever is handed out in a run meets a session that is later than the first. -/
theorem Later.of_mem_history {p : Session × Frame} (hp : p ∈ s.history actions) : Later s p.1 := by
  have hmoves : ∀ {i hs} {s t : Session}, Moves i hs s t → p ∈ hs → Later s p.1 := by
    intro i hs s t hmoves hp
    induction hmoves with
    | refl s => exact absurd hp List.not_mem_nil
    | move hmove hrest ih => exact (Later.of_move hmove).trans (ih hp)
    | route hrun hrest ih =>
      rcases List.mem_cons.1 hp with rfl | hp
      · exact .refl _
      · exact (Later.of_route _ _).trans (ih hp)
  induction actions generalizing s with
  | nil => exact absurd hp List.not_mem_nil
  | cons action actions ih =>
    rcases hstep : s.step? action with _ | t
    · rw [history, hstep] at hp
      exact absurd hp List.not_mem_nil
    · have hpump : Later s { s with pump := s.pumpAfter action } :=
        .of_calls_eq rfl (Nat.le_refl _) (List.Subset.refl _)
      rw [history_cons hstep] at hp
      rcases List.mem_append.1 hp with hp | hp
      · exact hpump.trans (hmoves (moves_of_step? hstep) hp)
      · exact (hpump.trans (.of_moves (moves_of_step? hstep))).trans (ih hp)

/-- What was asked for stays what it is. -/
theorem Later.exists_call (h : Later s t) (hmem : call ∈ s.calls) :
    ∃ call' ∈ t.calls, call'.request = call.request := by
  obtain ⟨j, hcall⟩ := List.mem_iff_getElem?.1 hmem
  obtain ⟨call', hcall', hrequest, -⟩ := h.call j call hcall
  exact ⟨call', List.mem_of_getElem? hcall', hrequest⟩

/-- A pump that is not at work neither sends nor receives. -/
theorem transfers_eq_nil (hstep : s.step? action = some t) (hrest : ¬ s.IsRunning) :
    s.transfers action = [] := by
  cases action with
  | write outcome =>
    simp only [step?] at hstep
    split at hstep
    · rename_i frame hwant
      exact absurd (isRunning_of_write hwant).1 hrest
    · cases hstep
  | read outcome =>
    simp only [step?] at hstep
    split at hstep
    · rename_i hwant
      exact absurd (isRunning_of_read hwant) hrest
    · cases hstep
  | _ => rfl

theorem log_eq_nil (hrest : ¬ s.IsRunning) (actions : List Action) : s.log actions = [] := by
  induction actions generalizing s with
  | nil => rfl
  | cons action actions ih =>
    rcases hstep : s.step? action with _ | t
    · rw [log, hstep]
    · rw [log_cons hstep, transfers_eq_nil hstep hrest,
        ih fun hrun => hrest (isRunning_of_step? hstep hrun), List.nil_append]

/-- A pump that is still at work has gone on or rests. -/
theorem obey_cases {verdict : Verdict} (hrun : (s.obey verdict).IsRunning) :
    ∃ pumpState alarms, s.obey verdict = { s with pumpState, alarms } := by
  cases verdict with
  | goOn => exact ⟨_, s.alarms, rfl⟩
  | rest => exact ⟨_, _, rfl⟩
  | giveUp cause =>
    refine absurd (show (s.giveUp cause).pumpState.isOver = false from hrun.2) ?_
    unfold giveUp
    dsimp only
    split
    · obtain ⟨ready, heq, -⟩ :=
        cutOff_wakeWhere_eq { s with lifecycle := s.lifecycle.terminate (.linkLost cause) }
      exact ne_of_eq_of_ne (congrArg (fun u => u.pumpState.isOver) heq) nofun
    · obtain ⟨ready, heq, -⟩ := closeOutstanding_conclude_eq
        { s with lifecycle := s.lifecycle.terminate (.linkLost cause) } (.linkLost cause)
      exact ne_of_eq_of_ne (congrArg (fun u => u.pumpState.isOver) heq) nofun

theorem Sound.withPump (h : s.Sound) (pump : Pump) : { s with pump }.Sound :=
  ⟨h.fit, { h.life with }, h.waiters, h.queue, { h.tickets with }, h.line.of_eq rfl rfl⟩

theorem wrote_of_note (hs : s.Sound) (hrun : s.IsRunning) {o : Outgoing} {frames : List Outgoing}
    (hqueued : s.outbound.queued = o :: frames) (outcome : Except Error Unit) :
    Wrote o outcome s ((s.regrant s.outbound.pop).note o.ticket outcome) ∧
      ((s.regrant s.outbound.pop).note o.ticket outcome).Sound := by
  obtain ⟨r, hgrant, hr⟩ := regrant_eq s s.outbound.pop
  obtain ⟨ready, heq, hrs⟩ := note_eq (s.regrant s.outbound.pop) o.ticket outcome
  rw [hgrant] at heq hrs
  rw [hgrant, heq]
  refine ⟨⟨hrun, hrun, ?_, rfl, rfl, rfl, rfl, rfl⟩, ?_⟩
  · rw [Outbound.queued_pop, hqueued, List.tail_cons]
  · exact hs.move (.wrote outcome (Nat.lt_succ_self s.calls.length) hrun hqueued
      (hr.trans hrs rfl rfl))

/-- A write, up to what the pump does next. -/
theorem exists_wrote {outcome : Except Error Unit} (hstep : s.step? (.write outcome) = some t)
    (hs : s.Sound) :
    ∃ o u verdict, s.transfers (.write outcome) = [(s, .sent o outcome)] ∧ Wrote o outcome s u ∧
      u.Sound ∧ t = u.obey verdict := by
  simp only [step?] at hstep
  split at hstep
  · rename_i o hwant
    obtain ⟨hrun, frames, hqueued⟩ := isRunning_of_write hwant
    obtain ⟨hwrote, hu⟩ := wrote_of_note (s := { s with pump := s.pumpAfter (.write outcome) })
      (hs.withPump _) hrun hqueued outcome
    refine ⟨o, _, (s.pump.wrote s.settings.maxFailures outcome).2, ?_, { hwrote with }, hu,
      (Option.some.inj hstep).symm⟩
    rw [transfers, hwant]
  · cases hstep

/-- What holds before a frame is handed out, and afterwards with the frame in the log, holds after
all frames that have been read. -/
theorem foldl_route_induction {P : List (Session × Transfer) → Session → Prop}
    (hreceived : ∀ past f s, s.Sound → s.IsRunning → P past s →
      P (past ++ [(s, .received f)]) (s.route f))
    (frames : List Frame) (hs : s.Sound) (hrun : s.IsRunning) (h : P past s) :
    P (past ++ (s.handOut frames).map fun p => (p.1, .received p.2)) (frames.foldl route s) ∧
      (frames.foldl route s).Sound := by
  induction frames generalizing s past with
  | nil =>
    refine ⟨?_, hs⟩
    rw [handOut, List.map_nil, List.append_nil]
    exact h
  | cons f frames ih =>
    have hrest := ih (hs.route hrun f) (hrun.route f) (hreceived past f s hs hrun h)
    rw [List.append_assoc] at hrest
    exact hrest

/-- What is kept when the pump goes on holds of the last session in which it is at work. -/
theorem exists_of_obey {P : List (Session × Transfer) → Session → Prop}
    (hpump : ∀ past s pump pumpState alarms, P past s → P past { s with pump, pumpState, alarms })
    (h : P past s) (verdict : Verdict) :
    ∃ u, P past u ∧ ((s.obey verdict).IsRunning → u = s.obey verdict) := by
  by_cases hgoing : (s.obey verdict).IsRunning
  · obtain ⟨pumpState, alarms, heq⟩ := obey_cases hgoing
    exact ⟨_, hpump past s s.pump pumpState alarms h, fun _ => heq.symm⟩
  · exact ⟨s, h, fun hgoing' => absurd hgoing' hgoing⟩

/-- What callers keep as long as the pump is at work, and what is kept when a frame is sent or
received and entered in the log, holds of the log after any further run. -/
theorem log_induction_from {P Q : List (Session × Transfer) → Session → Prop}
    (hpump : ∀ past s pump pumpState alarms, P past s → P past { s with pump, pumpState, alarms })
    (hcaller : ∀ past i s t, s.Sound → t.IsRunning → Q past s → Q past t → Deeds i s t →
      P past s → P past t)
    (hsent : ∀ past o outcome s t, s.Sound → Q past s → Wrote o outcome s t → t.Sound → P past s →
      P (past ++ [(s, .sent o outcome)]) t)
    (hreceived : ∀ past f s, s.Sound → s.IsRunning → P past s →
      P (past ++ [(s, .received f)]) (s.route f))
    (hs : s.Reachable) (hrun : s.run? actions = some t)
    (hQ : ∀ before ∈ actions.inits, ∀ u, s.run? before = some u → Q (past ++ s.log before) u)
    (h : P past s) : ∃ u, P (past ++ s.log actions) u := by
  induction actions generalizing s past with
  | nil => exact ⟨s, by rwa [log, List.append_nil]⟩
  | cons action actions ih =>
    obtain ⟨u, hstep, hrest⟩ := run?_cons_eq_some.1 hrun
    have hsound := Sound.of_reachable hs
    have hQs : Q past s := by
      have hfirst := hQ [] (by simp) s rfl
      rwa [log, List.append_nil] at hfirst
    have hQrest : ∀ before ∈ actions.inits, ∀ v, u.run? before = some v →
        Q (past ++ s.transfers action ++ u.log before) v := by
      intro before hbefore v hv
      have hmem : action :: before ∈ (action :: actions).inits := by
        rw [List.mem_inits] at hbefore ⊢
        exact (List.cons_prefix_cons).2 ⟨rfl, hbefore⟩
      have hnext := hQ _ hmem v (run?_cons_eq_some.2 ⟨u, hstep, hv⟩)
      rwa [log_cons hstep, ← List.append_assoc] at hnext
    have hcallers : action.isRound = false → s.transfers action = [] →
        ∃ v, P (past ++ s.transfers action) v ∧ (u.IsRunning → v = u) := by
      intro hround hnil
      rw [hnil, List.append_nil]
      by_cases hgoing : u.IsRunning
      · obtain ⟨i, hdeeds⟩ := exists_deeds_of_step? hstep hround hgoing hsound
        have hQu := hQrest [] (by simp) u rfl
        rw [hnil, log, List.append_nil, List.append_nil] at hQu
        exact ⟨u, hcaller past i s u hsound hgoing hQs hQu hdeeds h, fun _ => rfl⟩
      · exact ⟨s, h, fun hgoing' => absurd hgoing' hgoing⟩
    -- the last session in which the pump is at work has it all
    have hlast : ∃ v, P (past ++ s.transfers action) v ∧ (u.IsRunning → v = u) := by
      cases action with
      | write outcome =>
        obtain ⟨o, v, verdict, htransfers, hwrote, hv, rfl⟩ := exists_wrote hstep hsound
        rw [htransfers]
        exact exists_of_obey hpump (hsent past o outcome s v hsound hQs hwrote hv h) verdict
      | read outcome =>
        simp only [step?] at hstep
        split at hstep
        · rename_i hwant
          obtain rfl := Option.some.inj hstep
          have hread := hpump past s (s.pumpAfter (.read outcome)) s.pumpState s.alarms h
          obtain ⟨hP, -⟩ := foldl_route_induction hreceived
            (s.pump.read s.settings.maxFailures outcome).2.1
            (hsound.withPump (s.pumpAfter (.read outcome))) (isRunning_of_read hwant) hread
          exact exists_of_obey hpump hP (s.pump.read s.settings.maxFailures outcome).2.2
        · cases hstep
      | halt =>
        have hnot : ¬ u.IsRunning := by
          intro hgoing
          have hcancel := (isRunning_of_step? hstep hgoing).1
          simp only [step?] at hstep
          split at hstep
          · rename_i hwant
            rw [(cancelled_of_stop hwant).1] at hcancel
            cases hcancel
          · cases hstep
        have hnil : s.transfers .halt = [] := rfl
        rw [hnil, List.append_nil]
        exact ⟨s, h, fun hgoing => absurd hgoing hnot⟩
      | _ => exact hcallers rfl rfl
    obtain ⟨v, hv, hsame⟩ := hlast
    rw [log_cons hstep, ← List.append_assoc]
    by_cases hgoing : u.IsRunning
    · obtain rfl := hsame hgoing
      exact ih (hs.step hstep) hrest hQrest hv
    · rw [log_eq_nil hgoing, List.append_nil]
      exact ⟨v, hv⟩

/-- **Along a run.** The same for a run from the beginning. -/
theorem log_induction {P Q : List (Session × Transfer) → Session → Prop} {settings : Settings}
    (h₀ : ofSettings settings = .ok s) (hrun : s.run? actions = some t)
    (hQ : ∀ before ∈ actions.inits, ∀ u, s.run? before = some u → Q (s.log before) u)
    (hinit : P [] s)
    (hpump : ∀ past s pump pumpState alarms, P past s → P past { s with pump, pumpState, alarms })
    (hcaller : ∀ past i s t, s.Sound → t.IsRunning → Q past s → Q past t → Deeds i s t →
      P past s → P past t)
    (hsent : ∀ past o outcome s t, s.Sound → Q past s → Wrote o outcome s t → t.Sound → P past s →
      P (past ++ [(s, .sent o outcome)]) t)
    (hreceived : ∀ past f s, s.Sound → s.IsRunning → P past s →
      P (past ++ [(s, .received f)]) (s.route f)) : ∃ u, P (s.log actions) u := by
  have hall := log_induction_from hpump hcaller hsent hreceived (.refl h₀) hrun hQ hinit
  rwa [List.nil_append] at hall

end Session

end BleHost
