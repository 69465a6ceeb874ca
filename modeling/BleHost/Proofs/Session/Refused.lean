import BleHost.Proofs.Session.Pipelined

/-!
# Writes that fail

A call whose frame the link refuses fails, but it keeps its waiter until somebody hears of that: an
exchange that has been handed over, and for which nobody waits yet, goes on waiting for a response
that cannot come. So a response goes to the oldest waiter whose frame has been dealt with, written
or refused. Whoever was refused and has heard of it takes nothing from anybody
(`refused_take_nothing`).
-/

namespace BleHost

namespace Session

variable {i j : Nat} {s t : Session} {ticket : Nat} {e : Error} {hs : List (Session × Frame)}
  {outcome : Except Error Unit} {action : Action} {actions : List Action} {o : Outgoing} {f : Frame}
  {m : Message} {x : Waiter}

/-! ### Calls that were refused -/

/-- The frame of call `i` was refused: the call has still to hear of that, or it has failed. -/
def HasFailed (s : Session) (i ticket : Nat) (e : Error) : Prop :=
  ∃ call : Call, s.calls[i]? = some call ∧
    (call.stage.place = .frame ticket ∧ s.receipt? ticket = some (.error e) ∨
      call.stage = .dropped ∨
      ∃ time, call.stage = .ended time (.error e) ∨ call.stage = .ended time (.error .timeout))

/-- A call that has failed is over, or has a settled outcome. -/
theorem outcome?_of_refused {call : Call} (hplace : call.stage.place = .frame ticket)
    (hreceipt : s.receipt? ticket = some (.error e)) : s.outcome? call = some (.error e) := by
  unfold outcome?
  cases hstage : call.stage with
  | forWrite ticket' waiter =>
    rw [hstage] at hplace
    obtain rfl := Place.frame.inj hplace
    simp only [report?, hreceipt]
  | held ticket' waiter =>
    rw [hstage] at hplace
    obtain rfl := Place.frame.inj hplace
    simp only [report?, hreceipt]
  | _ =>
    rw [hstage] at hplace
    cases hplace

theorem HasFailed.move (h : s.HasFailed i ticket e) (hmove : Move j s t) :
    t.HasFailed i ticket e := by
  obtain ⟨call, hcall, hwhere⟩ := h
  have hgrown : s.receipt? ticket = some (.error e) → t.receipt? ticket = some (.error e) :=
    Grown.lookup_of_prefix (Grown.of_move hmove).receipts
  rcases hwhere with ⟨hplace, hreceipt⟩ | hover
  · have hframe : call.stage ≠ .inLine := by
      intro hstage
      rw [hstage] at hplace
      cases hplace
    by_cases hij : j = i
    · subst hij
      have hsame : ∀ {call' : Call}, s.calls[j]? = some call' → call' = call := fun hcall' =>
        Option.some.inj (hcall'.symm.trans hcall)
      cases hmove with
      | enter request deadline hi =>
        rw [hi, List.getElem?_eq_none (Nat.le_refl _)] at hcall
        cases hcall
      | queue hcall' hstage hturn hlive hclaims hopen hroom hready =>
        exact absurd (hsame hcall' ▸ hstage) hframe
      | block hcall' hstage hturn hlive hclaims hopen hroom =>
        exact absurd (hsame hcall' ▸ hstage) hframe
      | refuse bytes hcall' hstage hturn hlive hclaims hclosed =>
        exact absurd (hsame hcall' ▸ hstage) hframe
      | waitForPump hcall' hstage hrequest hrun =>
        exact absurd (hsame hcall' ▸ hstage) hframe
      | retry hcall' hstage hopen hgranted hready =>
        rw [← hsame hcall', hstage] at hplace
        cases hplace
      | expect hcall' hstage hreceipt' hreply =>
        rw [← hsame hcall', hstage] at hplace
        obtain rfl := Place.frame.inj hplace
        rw [hreceipt] at hreceipt'
        cases hreceipt'
      | await hcall' hstage =>
        obtain rfl := hsame hcall'
        rw [hstage] at hplace
        exact ⟨_, getElem?_modify_self hcall _, .inl ⟨hplace, hreceipt⟩⟩
      | finish hcall' hgoing hover hready =>
        obtain rfl := hsame hcall'
        refine ⟨_, getElem?_modify_self hcall _, .inr ?_⟩
        rcases hover with rfl | ⟨result, rfl, hends⟩
        · exact .inl rfl
        · refine .inr ⟨s.now, ?_⟩
          cases hends with
          | settled hsettled =>
            rw [outcome?_of_refused hplace hreceipt] at hsettled
            obtain rfl := Option.some.inj hsettled
            exact .inl rfl
          | stopped hrequest hstage => exact absurd hstage hframe
          | late hlate => exact .inr rfl
      | _ => exact ⟨call, hcall, .inl ⟨hplace, hgrown hreceipt⟩⟩
    · exact ⟨call, hmove.call_of_ne hij hcall, .inl ⟨hplace, hgrown hreceipt⟩⟩
  · have hended : call.stage.isOver = true := by
      rcases hover with hstage | ⟨time, hstage | hstage⟩
      · rw [hstage]
        rfl
      · rw [hstage]
        rfl
      · rw [hstage]
        rfl
    obtain ⟨call', hcall', -, hstay, -⟩ := (Later.of_move hmove).call i call hcall
    obtain rfl := hstay hended
    exact ⟨call', hcall', .inr hover⟩

theorem HasFailed.moves (h : s.HasFailed i ticket e) (hmoves : Moves j hs s t) :
    t.HasFailed i ticket e := by
  induction hmoves with
  | refl s => exact h
  | move hmove hrest ih => exact ih (h.move hmove)
  | @route hs s u f hrun hrest ih =>
    refine ih ?_
    obtain ⟨call, hcall, hwhere⟩ := h
    obtain ⟨outstanding, news, hub, ready, heq, -⟩ := route_eq s f
    rw [heq]
    exact ⟨call, hcall, hwhere⟩

theorem HasFailed.run (h : s.HasFailed i ticket e) (hrun : s.run? actions = some t) :
    t.HasFailed i ticket e := by
  refine run?_induction (P := fun u => u.HasFailed i ticket e) ?_ hrun h
  intro u action v hu hstep
  have hpump : { u with pump := u.pumpAfter action }.HasFailed i ticket e := hu
  exact hpump.moves (moves_of_step? hstep)

/-- A call whose frame is refused fails. -/
theorem hasFailed_of_mem_log {u : Session} (hs : s.Reachable) (hrun : s.run? actions = some t)
    (hsent : (u, .sent o (.error e)) ∈ s.log actions) (hsends : u.Sends i o.ticket) :
    t.HasFailed i o.ticket e := by
  induction actions generalizing s with
  | nil => exact absurd hsent List.not_mem_nil
  | cons action actions ih =>
    obtain ⟨v, hstep, hrest⟩ := run?_cons_eq_some.1 hrun
    rw [log_cons hstep] at hsent
    rcases List.mem_append.1 hsent with hnow | hlater
    · obtain ⟨rfl, rfl⟩ := write_of_sent_mem hnow
      have hsound := Sound.of_reachable hs
      obtain ⟨o', v', verdict, htransfers, hwrote, -, rfl⟩ := exists_wrote hstep hsound
      rw [htransfers] at hnow
      obtain rfl : o = o' := (Transfer.sent.inj (Prod.mk.inj (List.mem_singleton.1 hnow)).2).1
      have hmem : o ∈ u.outbound.queued := hwrote.queued ▸ List.mem_cons_self
      obtain ⟨call, hcall, hplace⟩ := hsends
      have hfailed : v'.HasFailed i o.ticket e := by
        refine ⟨call, by rw [hwrote.calls, hcall], .inl ⟨hplace, ?_⟩⟩
        rw [receipt?_append (.error e) o.ticket hwrote.receipts
          (hsound.tickets.unreported (List.mem_map_of_mem hmem)), if_pos rfl]
      exact (hfailed.moves
        (moves_obey (Nat.lt_succ_self v'.calls.length) hwrote.going verdict)).run hrest
    · exact ih (hs.step hstep) hrest hlater

/-! ### Who gets a response -/

/-- A response goes to the first of those whose frames have been dealt with, written or refused. -/
theorem Ranked.takes_dealt (h : s.Ranked) (hs : s.Sound)
    (hd : s.settings.catalogue.decode f = .ok m) (hevent : f.id.isEvent = false)
    (hx : (s.waitersWith Option.isSome).find? (·.expects == f.id) = some x) :
    Takes (s, f) x.id m := by
  obtain ⟨hwaits, i, r, hst, hr⟩ := mem_waitersWith.1 (List.mem_of_find?_eq_some hx)
  obtain ⟨outcome, rfl⟩ := Option.isSome_iff_exists.1 hr
  refine h.takes_of_oldest hs hd hevent hwaits (by simpa using List.find?_some hx) hst ?_
  intro y hy hid j outcome' hst'
  refine le_of_find?_waiter (hs.waiters.sorted.sublist List.filter_sublist) hx y ?_ hid
  exact mem_waitersWith.2 ⟨hy, j, _, hst', rfl⟩

/-- A response that a waiter takes completes the call that keeps it. -/
theorem Sound.completes_of_takes (h : s.Sound) (htakes : Takes (s, f) x.id m)
    (hx : x ∈ s.outstanding.waiters) : ∃ i, s.Keeps i x.id ∧ Completes (s, f) i m := by
  obtain ⟨i, r, hst⟩ := h.exists_stands hx
  exact ⟨i, hst.keeps, completes_iff.2 ⟨x.id, hst.keeps, htakes⟩⟩

/-- **Refused frames.** A call whose frame the link refuses never ends well. If callers get their
slots in the order in which they came, a response goes to the oldest call of its kind whose frame
has been dealt with, and as long as none of those who were refused has still to hear of it, that is
the oldest whose frame was written. So if the module answers in the order of the frames that were
written, nobody but the refused gives up, and no answer comes while one of these has still to hear
of it, then every answer completes the call whose frame it answers, and whoever ends well ends with
the answer to its own frame. -/
theorem refused_take_nothing {settings : Settings} {s₀ : Session}
    (h₀ : ofSettings settings = .ok s₀) (hrun : s₀.run? actions = some s)
    (hadmits : ∀ u ∈ s₀.trail actions, u.AdmitsInOrder) :
    (∀ (u : Session) (o : Outgoing) (e : Error) (i time : Nat) (outcome : Outcome),
      (u, .sent o (.error e)) ∈ s₀.log actions → u.Sends i o.ticket →
      s.stage? i ≠ some (.ended time (.ok outcome))) ∧
    (∀ (u : Session) (f : Frame) (m : Message) (x : Waiter), (u, .received f) ∈ s₀.log actions →
      u.settings.catalogue.decode f = .ok m → f.id.isEvent = false →
      ((u.waitersWith Option.isSome).find? (·.expects == f.id) = some x →
        ∃ i, u.Keeps i x.id ∧ Completes (u, f) i m) ∧
      ((∀ y ∈ u.spurned, y.expects ≠ f.id) → u.expected.find? (·.expects == f.id) = some x →
        ∃ i, u.Keeps i x.id ∧ Completes (u, f) i m)) ∧
    ((∀ call ∈ s.calls, call.request.awaited?.isSome = true ∨ call.request = .shutdown) →
      (∀ before ∈ actions.inits, ∀ u, s₀.run? before = some u → u.IsRunning →
        ∀ w ∈ u.gone, w ∈ refusals (s₀.log before)) →
      (∀ p ∈ s₀.log actions, ∀ f, p.2 = .received f → ∀ y ∈ p.1.spurned, y.expects ≠ f.id) →
      Orderly s.inUse (s₀.log actions) →
      (∀ (k : Nat) (a : Session × Frame), (answers s.inUse (s₀.log actions))[k]? = some a →
        ∃ (q : Session × Outgoing) (i : Nat) (m : Message),
          (questions (s₀.log actions))[k]? = some q ∧ q.2.identity? = some a.2.id ∧
          q.1.Sends i q.2.ticket ∧ Completes a i m) ∧
      ∀ (i : Nat) (call : Call) (c : Command) (time : Nat) (outcome : Outcome),
        s.calls[i]? = some call → call.request.awaited? = some c →
        call.stage = .ended time (.ok outcome) →
        ∃ (k : Nat) (q : Session × Outgoing) (a : Session × Frame) (m : Message),
          (questions (s₀.log actions))[k]? = some q ∧
          (answers s.inUse (s₀.log actions))[k]? = some a ∧ q.1.Sends i q.2.ticket ∧
          Completes a i m ∧ call.request.conclude m = .ok outcome) := by
  refine ⟨?_, ?_, ?_⟩
  · intro u o e i time outcome hsent hsends hstage
    obtain ⟨call, hcall, hwhere⟩ :=
      hasFailed_of_mem_log ⟨settings, s₀, [], h₀, rfl⟩ hrun hsent hsends
    have hended : call.stage = .ended time (.ok outcome) := by
      simpa [stage?, hcall] using hstage
    rcases hwhere with ⟨hplace, -⟩ | hdropped | ⟨time', herror | herror⟩
    · rw [hended] at hplace
      cases hplace
    · cases hdropped.symm.trans hended
    · cases herror.symm.trans hended
    · cases herror.symm.trans hended
  · intro u f m x hreceived hd hevent
    obtain ⟨hranked, hsound⟩ := ranked_of_mem_log h₀ hrun hadmits hreceived
    constructor
    · intro hx
      exact hsound.completes_of_takes (hranked.takes_dealt hsound hd hevent hx)
        (mem_waitersWith.1 (List.mem_of_find?_eq_some hx)).1
    · intro hclear hx
      exact hsound.completes_of_takes (hranked.takes_expected hsound hd hevent hclear hx)
        (mem_expected.1 (List.mem_of_find?_eq_some hx)).1
  · intro hcalls hgone hclear horderly
    obtain ⟨u, hpaired⟩ := paired h₀ hrun hcalls hadmits hgone hclear horderly
    refine ⟨fun k a ha => ?_, fun i call c time outcome hcall hcommand hstage =>
      hpaired.exists_own h₀ hrun horderly hcall hcommand hstage⟩
    obtain ⟨q, hq, hidentity⟩ := horderly.exists_question ha
    obtain ⟨i, m, hsends, hcompletes⟩ := hpaired.pairs k q a hq ha
    exact ⟨q, i, m, hq, hidentity, hsends, hcompletes⟩

/-- A command whose frame is refused and one whose frame is written, and the response to the other.
The first call hears that it has failed before the response comes. -/
def refusedThenWritten : List Action :=
  [.call (.initiate (signal 3)), .write (.error (.link "stalled")), .await 0 none,
    .call (.initiate (signal 7)), .write (.ok ()),
    .read (.received [0x00, 0x02, 0x03, 0x01, 0x07, 0x87]), .await 1 none]

theorem refused_take_nothing_then_written : ∃ s₀ s, ofSettings {} = .ok s₀ ∧
    s₀.run? refusedThenWritten = some s ∧ s.stage? 0 = some (.ended 0 (.error (.link "stalled"))) ∧
    s.stage? 1 = some (.ended 0 (.ok (.message ⟨.connectionGetRssi, 7, -121, ()⟩))) ∧
    ∃ (k : Nat) (q : Session × Outgoing) (a : Session × Frame) (m : Message),
      (questions (s₀.log refusedThenWritten))[k]? = some q ∧
      (answers s.inUse (s₀.log refusedThenWritten))[k]? = some a ∧ q.1.Sends 1 q.2.ticket ∧
      Completes a 1 m := by
  have hanswer : ∀ {s₀ s : Session}, ofSettings {} = .ok s₀ →
      s₀.run? refusedThenWritten = some s → (∀ u ∈ s₀.trail refusedThenWritten, u.AdmitsInOrder) →
      (∀ call ∈ s.calls, call.request.awaited?.isSome = true ∨ call.request = .shutdown) →
      (∀ before ∈ refusedThenWritten.inits, ∀ u ∈ s₀.run? before, u.IsRunning →
        ∀ w ∈ u.gone, w ∈ refusals (s₀.log before)) →
      (∀ p ∈ s₀.history refusedThenWritten, p.1.spurned = []) →
      Orderly s.inUse (s₀.log refusedThenWritten) →
      s.stage? 1 = some (.ended 0 (.ok (.message ⟨.connectionGetRssi, 7, -121, ()⟩))) →
      ((s.calls[1]?).bind (·.request.awaited?)).isSome = true →
      ∃ (k : Nat) (q : Session × Outgoing) (a : Session × Frame) (m : Message),
        (questions (s₀.log refusedThenWritten))[k]? = some q ∧
        (answers s.inUse (s₀.log refusedThenWritten))[k]? = some a ∧ q.1.Sends 1 q.2.ticket ∧
        Completes a 1 m := by
    intro s₀ s h₀ hrun hadmits hcalls hgone hclear horderly hstage hcommand
    obtain ⟨call, hcall, hstage⟩ := Option.map_eq_some_iff.1 hstage
    rw [hcall] at hcommand
    obtain ⟨c, hc⟩ := Option.isSome_iff_exists.1 hcommand
    have hfree : ∀ p ∈ s₀.log refusedThenWritten, ∀ f, p.2 = .received f →
        ∀ y ∈ p.1.spurned, y.expects ≠ f.id := by
      rintro ⟨u, transfer⟩ hp f rfl y hy
      rw [hclear (u, f) (received_mem_log.1 hp)] at hy
      exact absurd hy List.not_mem_nil
    obtain ⟨k, q, a, m, hq, ha, hsends, hcompletes, -⟩ :=
      ((refused_take_nothing h₀ hrun hadmits).2.2 hcalls hgone hfree horderly).2 1 call c 0 _ hcall
        hc hstage
    exact ⟨k, q, a, m, hq, ha, hsends, hcompletes⟩
  have h₀ : ofSettings {} = .ok _ := rfl
  refine ⟨_, _, h₀, (Option.some_get (by decide +kernel)).symm, by decide +kernel,
    by decide +kernel, ?_⟩
  exact hanswer h₀ (Option.some_get _).symm (by decide +kernel) (by decide +kernel)
    (by decide +kernel) (by decide +kernel) (by decide +kernel) (by decide +kernel)
    (by decide +kernel)

-- A call that has still to hear that its frame was refused takes the response to another one.
example : ∃ s₀ s, ofSettings {} = .ok s₀ ∧
    s₀.run? [.call (.initiate (signal 3)), .write (.error (.link "stalled")),
      .call (.initiate (signal 7)), .write (.ok ()),
      .read (.received [0x00, 0x02, 0x03, 0x01, 0x07, 0x87])] = some s ∧
    s.replies.map (·.1) = [1] ∧ s.outstanding.waiters.map (·.id) = [2] :=
  ⟨_, _, rfl, (Option.some_get (by decide +kernel)).symm, by decide +kernel, by decide +kernel⟩

end Session

end BleHost
