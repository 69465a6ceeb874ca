import BleHost.Proofs.Session.Pipelined

/-!
# Late answers

Where all calls exclude each other, there is never more than one response to wait for. But an
exchange that runs out of time leaves the line, while its frame stays behind, in the queue or
without an answer. Of what is left like this (`backlog`) the oldest frame of a kind gets the next
answer of that kind, and whoever waits then takes it for his own. So an exchange ends with the
answer to its own frame if nothing of its kind was left when it began to wait, and with the answer
to the oldest one of that kind otherwise (`exchange_answered_from_backlog`).
-/

namespace BleHost

namespace Session

variable {i j k w : Nat} {s t u : Session} {f : Frame} {m : Message} {o : Outgoing} {x : Waiter}
  {past : List (Session × Transfer)} {uses : Identity → Bool} {actions : List Action}
  {first : Identity → Option Outgoing} {id : Identity} {outcome : Except Error Unit}

/-- All calls for a response exclude each other. -/
def Serial (s : Session) : Prop :=
  ∀ call ∈ s.calls, call.request.awaited?.isSome = true → call.request.exclusive?.isSome = true

/-- All calls exclude each other. -/
def Exclusive (s : Session) : Prop :=
  ∀ call ∈ s.calls, call.request.exclusive?.isSome = true ∨ call.request = .shutdown

instance (s : Session) : Decidable s.Exclusive :=
  inferInstanceAs (Decidable (∀ call ∈ s.calls, _))

/-- The frames of a kind that are left: those without an answer, then those in the queue. -/
def backlog (uses : Identity → Bool) (past : List (Session × Transfer)) (s : Session)
    (id : Identity) : List Outgoing :=
  ((unanswered uses past).map (·.2) ++ s.outbound.queued).filter (·.identity? = some id)

/-! ### One at a time -/

theorem Exclusive.awaits (h : s.Exclusive) :
    ∀ call ∈ s.calls, call.request.awaited?.isSome = true ∨ call.request = .shutdown := by
  intro call hmem
  rcases h call hmem with hexclusive | hshutdown
  · refine .inl ?_
    cases hrequest : call.request with
    | exchange command limit => rfl
    | ask query => rfl
    | _ =>
      rw [hrequest] at hexclusive
      cases hexclusive
  · exact .inr hshutdown

theorem Exclusive.serial (h : s.Exclusive) : s.Serial := by
  intro call hmem hawaited
  refine (h call hmem).resolve_right fun hshutdown => ?_
  rw [hshutdown] at hawaited
  cases hawaited

theorem Exclusive.of_later (h : t.Exclusive) (hlater : Later s t) : s.Exclusive := by
  intro call hmem
  obtain ⟨call', hmem', hrequest⟩ := hlater.exists_call hmem
  rw [← hrequest]
  exact h call' hmem'

namespace Sound

/-- Whoever keeps a waiter is at the head of the line. -/
theorem head_of_keeps (h : s.Sound) (hserial : s.Serial) (hkeeps : s.Keeps i w) :
    s.line.head? = some i := by
  obtain ⟨call, hcall, hw⟩ := hkeeps
  have hget := WaitersSound.getElem?_holdings hcall
  rw [Call.holding, hw] at hget
  obtain ⟨command, hcommand, -⟩ := h.waiters.kept i _ w hget
  refine h.line.begun i call hcall ?_ ?_ ?_
  · exact hserial call (List.mem_of_getElem? hcall) (by rw [hcommand]; rfl)
  · cases hover : call.stage.isOver with
    | false => rfl
    | true =>
      rw [Stage.waiter?_eq_none_of_isOver hover] at hw
      cases hw
  · intro hstage
    rw [hstage] at hw
    cases hw

/-- Only one call keeps a waiter. -/
theorem eq_of_keeps_of_serial {v : Nat} (h : s.Sound) (hserial : s.Serial) (hi : s.Keeps i w)
    (hj : s.Keeps j v) : i = j :=
  Option.some.inj ((h.head_of_keeps hserial hi).symm.trans (h.head_of_keeps hserial hj))

/-- Whoever waits is the only one to wait. -/
theorem eq_of_waits {y : Waiter} (h : s.Sound) (hserial : s.Serial)
    (hx : x ∈ s.outstanding.waiters) (hy : y ∈ s.outstanding.waiters) : x = y := by
  obtain ⟨i, r, hi⟩ := h.exists_stands hx
  obtain ⟨j, r', hj⟩ := h.exists_stands hy
  obtain rfl := h.eq_of_keeps_of_serial hserial hi.keeps hj.keeps
  exact h.waiters.eq_of_id_eq hx hy (hi.eq hj).1

/-- A response goes to whoever waits for it. -/
theorem takes_of_waits (h : s.Sound) (hexclusive : s.Exclusive) (hx : x ∈ s.outstanding.waiters)
    (hexpects : x.expects = f.id) (hevent : f.id.isEvent = false)
    (hd : s.settings.catalogue.decode f = .ok m) : Takes (s, f) x.id m := by
  obtain ⟨y, hy⟩ := Outstanding.exists_oldest? hx hexpects hevent
  obtain ⟨-, hmem, -⟩ := Outstanding.oldest?_eq_some hy
  obtain rfl := h.eq_of_waits hexclusive.serial hx hmem
  refine ⟨hd, ?_⟩
  rw [hy, ← hexpects]

end Sound

/-! ### When a call begins to wait -/

/-- A call that has its turn behind it gets no waiter. -/
theorem Deed.lastId_le (h : Deed i s t) {call : Call} (hcall : s.calls[i]? = some call)
    (hstage : call.stage ≠ .inLine) : t.outstanding.lastId ≤ s.outstanding.lastId ∧
      ∃ call', t.calls[i]? = some call' ∧ call'.stage ≠ .inLine := by
  have hsame : ∀ {call' : Call}, s.calls[i]? = some call' → call' = call := fun hcall' =>
    Option.some.inj (hcall'.symm.trans hcall)
  have hover : ∀ {stage : Stage}, stage.isOver = true → stage ≠ .inLine := by
    rintro stage hover rfl
    cases hover
  cases h with
  | idle hcalls hwaits hqueued hline => exact ⟨by rw [hwaits], call, by rw [hcalls, hcall], hstage⟩
  | enter request deadline hi hcalls hwaits hqueued hline =>
    rw [hi, List.getElem?_eq_none (Nat.le_refl _)] at hcall
    cases hcall
  | claim hcall' hinline hcommand hturn hwaiter hcalls hwaits hoffers hline =>
    exact absurd (hsame hcall' ▸ hinline) hstage
  | plain hcall' hinline hnone hsends hwaiter hcalls hwaits hoffers hline =>
    exact absurd (hsame hcall' ▸ hinline) hstage
  | redeem hcall' hslot hwaiter hplace hcalls hwaits hqueued hline =>
    refine ⟨by rw [hwaits], _, by rw [hcalls, getElem?_modify_self hcall'], ?_⟩
    intro hinline
    rw [Call.stage_atStage] at hinline
    rw [hinline] at hplace
    cases hplace
  | shift hcall' hrequest hwaiter hwritten hplace hleft hpast hcalls hwaits hqueued hline =>
    exact ⟨by rw [hwaits], _, by rw [hcalls, getElem?_modify_self hcall'], hpast.2⟩
  | leave hcall' hgoing hover' hcalls hwaits hqueued hline =>
    refine ⟨?_, _, by rw [hcalls, getElem?_modify_self hcall'], ?_⟩
    · rw [hwaits]
      exact Nat.le_of_eq (lastId_withoutWaiter ..)
    · rw [Call.stage_atStage]
      exact hover hover'

theorem Deeds.lastId_le (h : Deeds i s t) {call : Call} (hcall : s.calls[i]? = some call)
    (hstage : call.stage ≠ .inLine) : t.outstanding.lastId ≤ s.outstanding.lastId := by
  induction h generalizing call with
  | refl s => exact Nat.le_refl _
  | step hs hdeed hreceipts hreplies hlater ht hrest ih =>
    obtain ⟨hle, call', hcall', hstage'⟩ := hdeed.lastId_le hcall hstage
    exact Nat.le_trans (ih hcall' hstage') hle

/-- Up to its turn a call queues nothing, and when it has queued something its turn is behind it. -/
theorem Deed.queued_eq (h : Deed i s t) : t.outbound.queued = s.outbound.queued ∨
    ∃ call : Call, t.calls[i]? = some call ∧ call.stage ≠ .inLine := by
  rcases h.queued_cases with hqueued | ⟨bytes, call, -, hcall, hplace⟩
  · exact .inl hqueued
  · refine .inr ⟨call, hcall, ?_⟩
    intro hstage
    rw [hstage] at hplace
    cases hplace

/-- Of what a caller does in one action, a certain deed is the one in which its call gets a waiter,
and nothing has been queued before. -/
theorem Deeds.exists_claim (h : Deeds i s t) (hlt : s.outstanding.lastId < w)
    (hle : w ≤ t.outstanding.lastId) : ∃ u v, u.Sound ∧ Deed i u v ∧ v.receipts = u.receipts ∧
      Deeds i v t ∧ u.outbound.queued = s.outbound.queued ∧ u.outstanding.lastId < w ∧
      w ≤ v.outstanding.lastId := by
  induction h with
  | refl s => omega
  | @step s u t hs hdeed hreceipts hreplies hlater ht hrest ih =>
    by_cases hnow : w ≤ u.outstanding.lastId
    · exact ⟨s, u, hs, hdeed, hreceipts, hrest, rfl, hlt, hnow⟩
    · have hlate : u.outstanding.lastId < w := Nat.lt_of_not_le hnow
      obtain ⟨u', v', hu', hdeed', hreceipts', hrest', hqueued', hclaims⟩ := ih hlate hle
      rcases hdeed.queued_eq with hqueued | ⟨call, hcall, hstage⟩
      · exact ⟨u', v', hu', hdeed', hreceipts', hrest', hqueued'.trans hqueued, hclaims⟩
      · have hnever := hrest.lastId_le hcall hstage
        omega

/-- Some action of a run is the one in which a waiter is made. -/
theorem exists_step_of_lt (hrun : s.run? actions = some t) (hlt : s.outstanding.lastId < w)
    (hle : w ≤ t.outstanding.lastId) : ∃ before action after u v,
      actions = before ++ action :: after ∧ s.run? before = some u ∧ u.step? action = some v ∧
      u.outstanding.lastId < w ∧ w ≤ v.outstanding.lastId := by
  induction actions generalizing s with
  | nil =>
    obtain rfl : s = t := by simpa using hrun
    omega
  | cons action actions ih =>
    obtain ⟨u, hstep, hrest⟩ := run?_cons_eq_some.1 hrun
    by_cases hnow : w ≤ u.outstanding.lastId
    · exact ⟨[], action, actions, s, u, rfl, rfl, hstep, hlt, hnow⟩
    · obtain ⟨before, action', after, u', v', rfl, hbefore, hstep', hclaims⟩ :=
        ih hrest (Nat.lt_of_not_le hnow)
      exact ⟨action :: before, action', after, u', v', rfl, run?_cons_eq_some.2 ⟨u, hstep, hbefore⟩,
        hstep', hclaims⟩

/-! ### What is left -/

/-- All that is left of a kind was sent by one call. -/
def SentBy (uses : Identity → Bool) (past : List (Session × Transfer)) (s : Session)
    (id : Identity) (j : Nat) : Prop :=
  (∀ q ∈ unanswered uses past, q.2.identity? = some id → q.1.Sends j q.2.ticket) ∧
    ∀ o ∈ s.outbound.queued, o.identity? = some id → s.Sends j o.ticket

/-- As long as somebody waits with waiter `w`, the oldest frame left of its kind is the one that was
the oldest when the waiter was made. If there was none then, all that is left comes from whoever
waits. -/
def Due (first : Identity → Option Outgoing) (w : Nat) (uses : Identity → Bool)
    (past : List (Session × Transfer)) (s : Session) : Prop :=
  ∀ x ∈ s.outstanding.waiters, x.id = w → ∀ j, s.Keeps j w →
    (first x.expects = none → SentBy uses past s x.expects j) ∧
    ∀ o, first x.expects = some o → (backlog uses past s x.expects).head? = some o

theorem sentBy_of_backlog_eq_nil (h : backlog uses past s id = []) : SentBy uses past s id j := by
  have hnone := List.filter_eq_nil_iff.1 h
  constructor
  · intro q hq hid
    exact absurd (by simpa using hid)
      (hnone q.2 (List.mem_append_left _ (List.mem_map_of_mem hq)))
  · intro o ho hid
    exact absurd (by simpa using hid) (hnone o (List.mem_append_right _ ho))

/-- What a caller queues comes behind all that is left. -/
theorem Deed.backlog_eq (h : Deed i s t) (uses : Identity → Bool)
    (past : List (Session × Transfer)) (id : Identity) : ∃ news,
    t.backlog uses past id = s.backlog uses past id ++ news := by
  have hqueued : ∃ frames, t.outbound.queued = s.outbound.queued ++ frames := by
    rcases h.queued_cases with hqueued | ⟨bytes, call, hqueued, -⟩
    · exact ⟨[], by rw [hqueued, List.append_nil]⟩
    · exact ⟨_, hqueued⟩
  obtain ⟨frames, hqueued⟩ := hqueued
  refine ⟨frames.filter (·.identity? = some id), ?_⟩
  rw [backlog, backlog, hqueued, ← List.append_assoc, List.filter_append]

/-- A frame that is written is left without an answer instead of in the queue. -/
theorem Wrote.backlog_eq (h : Wrote o (.ok ()) s t) (horderly : Orderly uses past) :
    t.backlog uses (past ++ [(s, .sent o (.ok ()))]) id = s.backlog uses past id := by
  rw [backlog, backlog, horderly.sent, h.queued, List.map_append, List.append_assoc]
  rfl

/-- A frame that answers nothing, or something else, leaves what is left of a kind. -/
theorem backlog_route (horderly : Orderly uses (past ++ [(s, .received f)]))
    (hother : isAnswer uses s f = true → f.id ≠ id) :
    (s.route f).backlog uses (past ++ [(s, .received f)]) id = s.backlog uses past id := by
  rw [backlog, backlog, queued_route]
  cases hanswer : isAnswer uses s f with
  | false => rw [unanswered_ignored hanswer]
  | true =>
    obtain ⟨q, -, hidentity, hunanswered⟩ := horderly.answer hanswer
    have hskip : q.2.identity? ≠ some id := by
      rw [hidentity]
      exact fun he => hother hanswer (Option.some.inj he)
    rw [hunanswered, List.map_cons, List.cons_append,
      List.filter_cons_of_neg (by simpa using hskip)]

namespace Due

theorem deed (h : Due first w uses past s) (hs : s.Sound) (ht : t.Sound)
    (hexclusive : t.Exclusive) (hdeed : Deed i s t) (hlater : Later s t)
    (hw : w ≤ s.outstanding.lastId) : Due first w uses past t := by
  rintro x hx rfl j hkeeps
  have hx' : x ∈ s.outstanding.waiters := by
    rcases hlater.waits x hx with hx' | hnew
    · exact hx'
    · omega
  have hkeeps' : s.Keeps j x.id := by
    rcases hlater.kept j x.id hkeeps with hkeeps' | hnew
    · exact hkeeps'
    · omega
  obtain ⟨hown, hother⟩ := h x hx' rfl j hkeeps'
  constructor
  · intro hnone
    obtain ⟨hasked, hqueued⟩ := hown hnone
    refine ⟨hasked, ?_⟩
    have hold : ∀ o ∈ s.outbound.queued, o.identity? = some x.expects → t.Sends j o.ticket := by
      intro o ho hid
      have hsends := hqueued o ho hid
      obtain ⟨r, hst⟩ := hkeeps'.stands
      obtain ⟨r', hst'⟩ := hkeeps.stands
      exact hdeed.sends hsends (hs.unwritten ho hsends hst ▸ hst) hst'
    rcases hdeed.queued_cases with hsame | ⟨bytes, call, hpushed, hcall, hplace⟩
    · rw [hsame]
      exact hold
    · intro o ho hid
      rw [hpushed] at ho
      rcases List.mem_append.1 ho with ho | ho
      · exact hold o ho hid
      · -- nobody else has his turn
        rw [List.mem_singleton.1 ho]
        have hsends : t.Sends i (s.outbound.lastTicket + 1) := ⟨call, hcall, hplace⟩
        obtain ⟨v, r, hst⟩ := ht.exists_stands_of_sends hexclusive.awaits hsends
        rwa [← ht.eq_of_keeps_of_serial hexclusive.serial hst.keeps hkeeps]
  · intro o ho
    obtain ⟨news, heq⟩ := hdeed.backlog_eq uses past x.expects
    rw [heq, List.head?_append, hother o ho]
    rfl

/-- What is left when a waiter is made decides what is the oldest for it. -/
theorem claim (hs : s.Sound) (hdeed : Deed i s t) (hreceipts : t.receipts = s.receipts)
    (hlt : s.outstanding.lastId < w)
    (hfirst : ∀ id, first id = (s.backlog uses past id).head?) : Due first w uses past t := by
  rintro x hx rfl j hkeeps
  obtain ⟨r, hst⟩ := hkeeps.stands
  have hnew : j = i := by
    rcases (hdeed.turnover hs hreceipts).stands_or_new hst with hst' | ⟨hji, -, -⟩
    · exact absurd (hs.le_lastId hst') (Nat.not_le_of_lt hlt)
    · exact hji
  subst hnew
  constructor
  · intro hnone
    rw [hfirst, List.head?_eq_none_iff] at hnone
    obtain ⟨hasked, hqueued⟩ := sentBy_of_backlog_eq_nil (j := j) hnone
    refine ⟨hasked, ?_⟩
    have hold : ∀ o ∈ s.outbound.queued, o.identity? ≠ some x.expects := by
      intro o ho hid
      have hmem : o ∈ s.backlog uses past x.expects :=
        List.mem_filter.2 ⟨List.mem_append_right _ ho, by simpa using hid⟩
      rw [hnone] at hmem
      exact absurd hmem List.not_mem_nil
    intro o ho hid
    rcases hdeed.queued_cases with hsame | ⟨bytes, call, hpushed, hcall, hplace⟩
    · exact absurd hid (hold o (hsame ▸ ho))
    · rw [hpushed] at ho
      rcases List.mem_append.1 ho with ho | ho
      · exact absurd hid (hold o ho)
      · rw [List.mem_singleton.1 ho]
        exact ⟨call, hcall, hplace⟩
  · intro o ho
    obtain ⟨news, heq⟩ := hdeed.backlog_eq uses past x.expects
    rw [heq, List.head?_append, ← hfirst, ho]
    rfl

theorem deeds (h : Due first w uses past s) (hexclusive : t.Exclusive) (hdeeds : Deeds i s t)
    (hw : w ≤ s.outstanding.lastId) : Due first w uses past t := by
  induction hdeeds with
  | refl s => exact h
  | step hs hdeed hreceipts hreplies hlater ht hrest ih =>
    exact ih (h.deed hs ht (hexclusive.of_later hrest.later) hdeed hlater hw) hexclusive
      (Nat.le_trans hw hlater.lastId_le)

theorem wrote (h : Due first w uses past s) (hwrote : Wrote o (.ok ()) s t)
    (horderly : Orderly uses past) : Due first w uses (past ++ [(s, .sent o (.ok ()))]) t := by
  intro x hx hid j hkeeps
  rw [hwrote.outstanding] at hx
  obtain ⟨hown, hother⟩ := h x hx hid j (by rwa [Keeps, ← hwrote.calls])
  constructor
  · intro hnone
    obtain ⟨hasked, hqueued⟩ := hown hnone
    rw [hwrote.queued] at hqueued
    constructor
    · intro q hq hidentity
      rw [horderly.sent] at hq
      rcases List.mem_append.1 hq with hq | hq
      · exact hasked q hq hidentity
      · obtain rfl := List.mem_singleton.1 hq
        exact hqueued o List.mem_cons_self hidentity
    · intro o' ho hidentity
      exact hwrote.sends_iff.2 (hqueued o' (List.mem_cons_of_mem _ ho) hidentity)
  · intro o' ho
    rw [hwrote.backlog_eq horderly]
    exact hother o' ho

theorem route (h : Due first w uses past s) (hs : s.Sound) (hexclusive : s.Exclusive)
    (horderly : Orderly uses (past ++ [(s, .received f)])) :
    Due first w uses (past ++ [(s, .received f)]) (s.route f) := by
  intro x hx hid j hkeeps
  have hx' := waiters_route s f hx
  -- whoever waits for a response does not wait any more when it has come
  have hstill : isAnswer uses s f = true → f.id ≠ x.expects := by
    intro hanswer hexpects
    obtain ⟨hevent, -, m, hd⟩ := isAnswer_iff.1 hanswer
    obtain ⟨ready, heq⟩ :=
      route_of_takes (hs.takes_of_waits hexclusive hx' hexpects.symm hevent hd)
    rw [heq] at hx
    have hne := (List.mem_filter.1 hx).2
    simp at hne
  obtain ⟨hown, hother⟩ := h x hx' hid j (by rwa [Keeps, ← calls_route s f])
  constructor
  · intro hnone
    obtain ⟨hasked, hqueued⟩ := hown hnone
    constructor
    · intro q hq hidentity
      refine hasked q ?_ hidentity
      cases hanswer : isAnswer uses s f with
      | false => rwa [unanswered_ignored hanswer] at hq
      | true =>
        obtain ⟨q', -, -, hunanswered⟩ := horderly.answer hanswer
        rw [hunanswered]
        exact List.mem_cons_of_mem _ hq
    · intro o ho hidentity
      rw [queued_route] at ho
      exact (sends_route s f).2 (hqueued o ho hidentity)
  · intro o ho
    rw [backlog_route horderly hstill]
    exact hother o ho

/-- The next answer of the kind answers the oldest frame that is left. -/
theorem answer (h : Due first w uses past s) (horderly : Orderly uses (past ++ [(s, .received f)]))
    (hanswer : isAnswer uses s f = true) (hkeeps : s.Keeps j w)
    (hcompletes : Completes (s, f) j m) : ∃ q,
      (questions past)[(answers uses past).length]? = some q ∧
      (first f.id = none → q.1.Sends j q.2.ticket) ∧ ∀ o, first f.id = some o → q.2 = o := by
  obtain ⟨q, hq, hidentity, hunanswered⟩ := horderly.answer hanswer
  obtain ⟨v, hkeeps', -, holdest⟩ := completes_iff.1 hcompletes
  obtain ⟨r, hst⟩ := hkeeps.stands
  obtain ⟨r', hst'⟩ := hkeeps'.stands
  obtain rfl := (hst.eq hst').1
  obtain ⟨-, hwaits, -⟩ := Outstanding.oldest?_eq_some holdest
  obtain ⟨hown, hother⟩ := h ⟨w, f.id⟩ hwaits rfl j hkeeps
  refine ⟨q, hq, ?_, ?_⟩
  · intro hnone
    exact (hown hnone).1 q (hunanswered ▸ List.mem_cons_self) hidentity
  · intro o ho
    have hhead := hother o ho
    rw [backlog, hunanswered, List.map_cons, List.cons_append,
      List.filter_cons_of_pos (by simpa using hidentity)] at hhead
    exact Option.some.inj hhead

end Due

/-! ### Along a run -/

/-- Whatever completes the call that keeps waiter `w` is the answer to the oldest frame of its kind
that was left when the waiter was made, or to the call's own frame if there was none. -/
structure Tracked (first : Identity → Option Outgoing) (w : Nat) (uses : Identity → Bool)
    (past : List (Session × Transfer)) (s : Session) : Prop where
  exclusive : s.Exclusive
  due : Due first w uses past s
  answered : ∀ (k j : Nat) (a : Session × Frame) (m : Message), (answers uses past)[k]? = some a →
    a.1.Keeps j w → Completes a j m → ∃ q, (questions past)[k]? = some q ∧
      (first a.2.id = none → q.1.Sends j q.2.ticket) ∧ ∀ o, first a.2.id = some o → q.2 = o

namespace Tracked

theorem wrote (h : Tracked first w uses past s) (hwrote : Wrote o (.ok ()) s t)
    (horderly : Orderly uses past) : Tracked first w uses (past ++ [(s, .sent o (.ok ()))]) t where
  exclusive := by
    unfold Exclusive
    rw [hwrote.calls]
    exact h.exclusive
  due := h.due.wrote hwrote horderly
  answered := by
    intro k j a m ha hkeeps hcompletes
    rw [answers_sent] at ha
    obtain ⟨q, hq, hbelongs⟩ := h.answered k j a m ha hkeeps hcompletes
    refine ⟨q, ?_, hbelongs⟩
    rw [questions_sent, List.getElem?_append_left (List.getElem?_eq_some_iff.1 hq).1, hq]

theorem route (h : Tracked first w uses past s) (hs : s.Sound)
    (horderly : Orderly uses (past ++ [(s, .received f)])) :
    Tracked first w uses (past ++ [(s, .received f)]) (s.route f) where
  exclusive := by
    unfold Exclusive
    rw [calls_route]
    exact h.exclusive
  due := h.due.route hs h.exclusive horderly
  answered := by
    rw [questions_received]
    intro k j a m ha hkeeps hcompletes
    cases hanswer : isAnswer uses s f with
    | false =>
      rw [answers_ignored hanswer] at ha
      exact h.answered k j a m ha hkeeps hcompletes
    | true =>
      rw [answers_received hanswer] at ha
      rcases getElem?_append_cases ha with ⟨rfl, rfl⟩ | ha
      · exact h.due.answer horderly hanswer hkeeps hcompletes
      · exact h.answered k j a m ha hkeeps hcompletes

/-- What callers do up to the moment when the waiter is made decides nothing, and later it changes
nothing. -/
theorem deeds (h : Tracked first w uses past s) (hexclusive : t.Exclusive) (hdeeds : Deeds i s t)
    (hfirst : s.outstanding.lastId < w → w ≤ t.outstanding.lastId ∧
      ∀ id, first id = (s.backlog uses past id).head?) : Tracked first w uses past t where
  exclusive := hexclusive
  answered := h.answered
  due := by
    by_cases hw : w ≤ s.outstanding.lastId
    · exact h.due.deeds hexclusive hdeeds hw
    · have hlt := Nat.lt_of_not_le hw
      obtain ⟨hle, hhead⟩ := hfirst hlt
      obtain ⟨u, v, hu, hdeed, hreceipts, hrest, hqueued, hlt', hle'⟩ := hdeeds.exists_claim hlt hle
      refine Due.deeds (.claim hu hdeed hreceipts hlt' fun id => ?_) hexclusive hrest hle'
      rw [hhead, backlog, backlog, hqueued]

/-- Before the waiter is made nobody keeps it, and nothing that has come completes whoever will. -/
theorem start {settings : Settings} {s₀ : Session} (h₀ : ofSettings settings = .ok s₀)
    (hrun : s₀.run? actions = some s) (hexclusive : s.Exclusive)
    (hlt : s.outstanding.lastId < w) : Tracked first w uses (s₀.log actions) s := by
  have hnobody : ∀ j, ¬ s.Keeps j w := by
    intro j hkeeps
    obtain ⟨r, hst⟩ := hkeeps.stands
    have hle := (Sound.of_reachable ⟨settings, s₀, actions, h₀, hrun⟩).le_lastId hst
    omega
  refine ⟨hexclusive, fun x hx hid j hkeeps => absurd hkeeps (hnobody j), ?_⟩
  intro k j a m ha hkeeps
  obtain ⟨hreceived, -⟩ := mem_answers.1 (List.mem_of_getElem? ha)
  obtain ⟨hsound, hlater, -⟩ := sound_of_mem_history h₀ hrun (received_mem_log.1 hreceived)
  obtain ⟨command?, hget⟩ := WaitersSound.getElem?_holdings_of_keeps hkeeps
  have hle := hsound.le_lastId hget
  have hmono := hlater.lastId_le
  omega

end Tracked

/-- Whoever has not got the waiter after the beginning of a run stands before the action that makes
it. -/
theorem eq_of_lastId_lt {before rest : List Action} {action : Action} {v : Session}
    (hstep : s.step? action = some v) (hle : w ≤ v.outstanding.lastId)
    (hbefore : before <+: action :: rest) (hrun : s.run? before = some t)
    (hlt : t.outstanding.lastId < w) : t = s ∧ before = [] := by
  cases before with
  | nil =>
    obtain rfl : s = t := by simpa using hrun
    exact ⟨rfl, rfl⟩
  | cons action' before =>
    obtain ⟨rfl, -⟩ := List.cons_prefix_cons.1 hbefore
    obtain ⟨v', hstep', hrest⟩ := run?_cons_eq_some.1 hrun
    obtain rfl := Option.some.inj (hstep.symm.trans hstep')
    have hmono := (Later.of_run? hrest).lastId_le
    omega

/-- What is left when a waiter is made decides which answer completes the call that keeps it. -/
theorem tracked {settings : Settings} {before after : List Action} {action : Action}
    {s₀ v : Session} (h₀ : ofSettings settings = .ok s₀) (hbefore : s₀.run? before = some u)
    (hstep : u.step? action = some v) (hafter : v.run? after = some s) (hexclusive : s.Exclusive)
    (hwrites : ∀ e, .write (.error e) ∉ before ++ action :: after)
    (horderly : Orderly uses (s₀.log (before ++ action :: after)))
    (hlt : u.outstanding.lastId < w) (hle : w ≤ v.outstanding.lastId) :
    ∃ t, Tracked (fun id => (u.backlog uses (s₀.log before) id).head?) w uses
      (s₀.log (before ++ action :: after)) t := by
  have hrun : u.run? (action :: after) = some s := run?_cons_eq_some.2 ⟨v, hstep, hafter⟩
  have hlog : s₀.log (before ++ action :: after) = s₀.log before ++ u.log (action :: after) :=
    log_append hbefore
  have hfirst : ∀ {past : List (Session × Transfer)} {q},
      (∀ p o e, (p, .sent o (.error e)) ∉ past ++ [q]) → ∀ p o e, (p, .sent o (.error e)) ∉ past :=
    fun hok p o e hmem => hok p o e (List.mem_append_left _ hmem)
  have hall : ∃ t : Session, (∀ p o e, (p, .sent o (.error e)) ∉
        s₀.log before ++ u.log (action :: after)) →
      Orderly uses (s₀.log before ++ u.log (action :: after)) →
      Tracked (fun id => (u.backlog uses (s₀.log before) id).head?) w uses
        (s₀.log before ++ u.log (action :: after)) t := by
    refine log_induction_from
      (P := fun past t => (∀ p o e, (p, .sent o (.error e)) ∉ past) → Orderly uses past →
        Tracked (fun id => (u.backlog uses (s₀.log before) id).head?) w uses past t)
      (Q := fun past t => Later t s ∧
        (t.outstanding.lastId < w → t = u ∧ past = s₀.log before))
      ?_ ?_ ?_ ?_ ⟨settings, s₀, before, h₀, hbefore⟩ hrun ?_ ?_
    · intro past t pump pumpState alarms h hok horderly
      obtain ⟨hexclusive, hdue, hanswered⟩ := h hok horderly
      exact ⟨hexclusive, hdue, hanswered⟩
    · rintro past i t t' ht hgoing ⟨-, hearly⟩ ⟨hlater, hearly'⟩ hdeeds h hok horderly
      by_cases hw : t'.outstanding.lastId < w
      · obtain ⟨rfl, -⟩ := hearly' hw
        obtain ⟨rfl, -⟩ := hearly (Nat.lt_of_le_of_lt hdeeds.later.lastId_le hw)
        exact h hok horderly
      · refine (h hok horderly).deeds (hexclusive.of_later hlater) hdeeds fun hlt' => ?_
        obtain ⟨rfl, rfl⟩ := hearly hlt'
        exact ⟨Nat.le_of_not_lt hw, fun _ => rfl⟩
    · intro past o outcome t t' ht hQ hwrote ht' h hok horderly
      cases outcome with
      | ok success => exact (h (hfirst hok) horderly.of_append).wrote hwrote horderly.of_append
      | error e => exact absurd (by simp) (hok t o e)
    · intro past f t ht hgoing h hok horderly
      exact (h (hfirst hok) horderly.of_append).route ht horderly
    · intro part hpart t ht
      obtain ⟨rest, hrest⟩ := (List.mem_inits _ _).1 hpart
      refine ⟨.of_run? (run?_of_append (hrest ▸ hrun) ht), fun hearly => ?_⟩
      obtain ⟨rfl, rfl⟩ := eq_of_lastId_lt hstep hle ⟨rest, hrest⟩ ht hearly
      exact ⟨rfl, by rw [log, List.append_nil]⟩
    · exact fun _ _ => .start h₀ hbefore (hexclusive.of_later (.of_run? hrun)) hlt
  obtain ⟨t, ht⟩ := hall
  rw [hlog] at horderly ⊢
  refine ⟨t, ht ?_ horderly⟩
  intro p o e hmem
  rw [← hlog] at hmem
  exact hwrites e (write_mem_of_sent hmem)

/-- **Late answers.** All calls exclude each other, whatever time limits they have; every write
succeeds, and the module answers in the order of the frames that were written, however late. Then
every exchange that has ended well ended with an answer to a frame of its own kind: if no such frame
was left in the queue or without an answer when its waiter was made, with the answer to its own
frame, and with the answer to the oldest of those that were left otherwise. -/
theorem exchange_answered_from_backlog {settings : Settings} {s₀ : Session}
    (h₀ : ofSettings settings = .ok s₀) (hrun : s₀.run? actions = some s)
    (hcalls : ∀ call ∈ s.calls, call.request.exclusive?.isSome = true ∨ call.request = .shutdown)
    (hwrites : ∀ e, .write (.error e) ∉ actions)
    (horderly : Orderly s.inUse (s₀.log actions)) (i : Nat) (call : Call) (c : Command)
    (time : Nat) (outcome : Outcome) (hcall : s.calls[i]? = some call)
    (hcommand : call.request.awaited? = some c) (hstage : call.stage = .ended time (.ok outcome)) :
    ∃ (k w : Nat) (q : Session × Outgoing) (a : Session × Frame) (m : Message)
      (before after : List Action) (action : Action) (u v : Session),
      (questions (s₀.log actions))[k]? = some q ∧ (answers s.inUse (s₀.log actions))[k]? = some a ∧
      q.2.identity? = some c.responseId ∧ a.1.Keeps i w ∧ Completes a i m ∧
      call.request.conclude m = .ok outcome ∧
      actions = before ++ action :: after ∧ s₀.run? before = some u ∧ u.step? action = some v ∧
      u.outstanding.lastId < w ∧ w ≤ v.outstanding.lastId ∧
      (u.backlog s.inUse (s₀.log before) c.responseId = [] → q.1.Sends i q.2.ticket) ∧
      ∀ o rest, u.backlog s.inUse (s₀.log before) c.responseId = o :: rest → q.2 = o := by
  obtain ⟨k, a, m, ha, hcompletes, hconclude, hmem⟩ :=
    exists_answer h₀ hrun hcall hcommand hstage
  obtain ⟨hsound, hlater, -⟩ := sound_of_mem_history h₀ hrun hmem
  obtain ⟨w, call', c', hcall', hw, hcommand', hid, -⟩ := hcompletes.facts hsound
  have hkeeps : a.1.Keeps i w := ⟨call', hcall', hw⟩
  have hsame : c' = c := by
    obtain ⟨call'', hcall'', hrequest, -⟩ := hlater.call i call' hcall'
    obtain rfl := Option.some.inj (hcall.symm.trans hcall'')
    rw [hrequest, hcommand'] at hcommand
    exact Option.some.inj hcommand
  subst hsame
  obtain ⟨command?, hget⟩ := WaitersSound.getElem?_holdings_of_keeps hkeeps
  have hle : w ≤ s.outstanding.lastId :=
    Nat.le_trans (hsound.le_lastId hget) hlater.lastId_le
  have hpos : s₀.outstanding.lastId < w := by
    rcases (Later.of_mem_history hmem).kept i w hkeeps with ⟨call₀, hcall₀, -⟩ | hlt
    · obtain rfl := eq_of_ofSettings h₀
      simp at hcall₀
    · exact hlt
  obtain ⟨before, action, after, u, v, rfl, hbefore, hstep, hlt, hge⟩ :=
    exists_step_of_lt hrun hpos hle
  have hafter : v.run? after = some s := by
    obtain ⟨v', hstep', hafter⟩ := run?_cons_eq_some.1 (run?_of_append hrun hbefore)
    rwa [Option.some.inj (hstep.symm.trans hstep')]
  obtain ⟨t, ht⟩ := tracked h₀ hbefore hstep hafter hcalls hwrites horderly hlt hge
  obtain ⟨q, hq, hown, hother⟩ := ht.answered k i a m ha hkeeps hcompletes
  rw [hid] at hown hother
  have hidentity : q.2.identity? = some c'.responseId := by
    obtain ⟨q', hq', hidentity⟩ := horderly.exists_question ha
    rw [Option.some.inj (hq.symm.trans hq'), hidentity, hid]
  refine ⟨k, w, q, a, m, before, after, action, u, v, hq, ha, hidentity, hkeeps, hcompletes,
    hconclude, rfl, hbefore, hstep, hlt, hge, ?_, ?_⟩
  · intro hnil
    exact hown (List.head?_eq_none_iff.2 hnil)
  · intro o rest heq
    exact hother o (by rw [heq]; rfl)

/-- An exchange that runs out of time, and its answer, which comes late and which nobody wants; then
another exchange of the same kind. -/
def lateAnswer : List Action :=
  [.call (.exchange (signal 3) (some 5)), .write (.ok ()), .pass 6, .turn 0,
    .read (.received [0x00, 0x02, 0x03, 0x01, 0x03, 0x83]), .call (.exchange (signal 7) none),
    .write (.ok ()), .read (.received [0x00, 0x02, 0x03, 0x01, 0x07, 0x87]), .turn 1]

theorem exchange_answered_from_backlog_late : ∃ s₀ s, ofSettings {} = .ok s₀ ∧
    s₀.run? lateAnswer = some s ∧ s.stage? 0 = some (.ended 6 (.error .timeout)) ∧
    s.stage? 1 = some (.ended 6 (.ok (.message ⟨.connectionGetRssi, 7, -121, ()⟩))) ∧
    ∃ (k : Nat) (q : Session × Outgoing) (a : Session × Frame) (m : Message),
      (questions (s₀.log lateAnswer))[k]? = some q ∧
      (answers s.inUse (s₀.log lateAnswer))[k]? = some a ∧
      q.2.identity? = some (signal 7).responseId ∧ Completes a 1 m := by
  have hanswer : ∀ {s₀ s : Session}, ofSettings {} = .ok s₀ → s₀.run? lateAnswer = some s →
      s.Exclusive → Orderly s.inUse (s₀.log lateAnswer) →
      s.stage? 1 = some (.ended 6 (.ok (.message ⟨.connectionGetRssi, 7, -121, ()⟩))) →
      (s.calls[1]?).map (·.request.awaited?) = some (some (signal 7)) →
      ∃ (k : Nat) (q : Session × Outgoing) (a : Session × Frame) (m : Message),
        (questions (s₀.log lateAnswer))[k]? = some q ∧
        (answers s.inUse (s₀.log lateAnswer))[k]? = some a ∧
        q.2.identity? = some (signal 7).responseId ∧ Completes a 1 m := by
    intro s₀ s h₀ hrun hcalls horderly hstage hcommand
    obtain ⟨call, hcall, hstage⟩ := Option.map_eq_some_iff.1 hstage
    rw [hcall] at hcommand
    have hwrites : ∀ e, Action.write (.error e) ∉ lateAnswer := by simp [lateAnswer]
    obtain ⟨k, w, q, a, m, before, after, action, u, v, hq, ha, hidentity, -, hcompletes, -⟩ :=
      exchange_answered_from_backlog h₀ hrun hcalls hwrites horderly 1 call (signal 7) 6 _ hcall
        (Option.some.inj hcommand) hstage
    exact ⟨k, q, a, m, hq, ha, hidentity, hcompletes⟩
  have h₀ : ofSettings {} = .ok _ := rfl
  refine ⟨_, _, h₀, (Option.some_get (by decide +kernel)).symm, by decide +kernel,
    by decide +kernel, ?_⟩
  exact hanswer h₀ (Option.some_get _).symm (by decide +kernel) (by decide +kernel)
    (by decide +kernel) (by decide +kernel)

-- An answer that comes later still is taken for the answer to the next exchange.
example : ∃ s₀ s, ofSettings {} = .ok s₀ ∧
    s₀.run? [.call (.exchange (signal 3) (some 5)), .write (.ok ()), .pass 6, .turn 0,
      .call (.exchange (signal 7) none), .write (.ok ()),
      .read (.received [0x00, 0x02, 0x03, 0x01, 0x03, 0x83]), .turn 1] = some s ∧
    s.stage? 1 = some (.ended 6 (.ok (.message ⟨.connectionGetRssi, 3, -125, ()⟩))) :=
  ⟨_, _, rfl, (Option.some_get (by decide +kernel)).symm, by decide +kernel⟩

end Session

end BleHost
