import BleHost.Proofs.Session.Passage

/-!
# What senders are told

A call for whose response nobody waits ends with what became of its frame, or as dead when its frame
never got into the queue (`Reported`). Together with what the link is given this is the contract of
the outbound queue (`frames_pass_in_order`): frames reach the link in the order in which they were
queued, whole and once, and everybody who queued one hears what became of it.
-/

namespace BleHost

namespace Session

variable {i j : Nat} {s s₀ t u v : Session} {call call' : Call} {hs : List (Session × Frame)}
  {action : Action} {actions after : List Action} {book : List (Nat × Outgoing)} {ticket : Nat}
  {past : List (Outgoing × Except Error Unit)} {lost : List Outgoing} {o o' : Outgoing}
  {outcome : Except Error Unit}

/-! ### What callers are told -/

/-- What is so of the calls for whose response nobody waits: they have no time limit, and end with
what became of their frames. -/
structure Reported (book : List (Nat × Outgoing)) (s : Session) : Prop where
  untimed : ∀ (j : Nat) (call : Call), s.calls[j]? = some call → call.request.awaited? = none →
    call.deadline = none
  ended : ∀ (j : Nat) (call : Call) (time : Nat) (result : Except Error Outcome),
    s.calls[j]? = some call → call.request.awaited? = none → call.request ≠ .shutdown →
    call.stage = .ended time result →
    (∃ (o : Outgoing) (outcome : Except Error Unit), (j, o) ∈ book ∧
      s.receipt? o.ticket = some outcome ∧
      result = outcome.map fun _ => call.request.onceWritten) ∨
    j ∉ book.map (·.1) ∧ result = .error .dead

namespace Reported

theorem nil {settings : Settings} (h : ofSettings settings = .ok s) : Reported [] s := by
  obtain rfl := eq_of_ofSettings h
  constructor
  · intro j call hcall
    simp at hcall
  · intro j call time result hcall
    simp at hcall

/-- A call that has ended stays so, whatever another one enters. -/
theorem of_ne (h : Reported book s) (hgrown : Grown s t) (hij : i ≠ j) {time : Nat}
    {result : Except Error Outcome} (hcall : s.calls[j]? = some call)
    (hawaited : call.request.awaited? = none) (hsends : call.request ≠ .shutdown)
    (hstage : call.stage = .ended time result) :
    (∃ (o : Outgoing) (outcome : Except Error Unit), (j, o) ∈ book ++ entriesBetween i s t ∧
      t.receipt? o.ticket = some outcome ∧
      result = outcome.map fun _ => call.request.onceWritten) ∨
    j ∉ (book ++ entriesBetween i s t).map (·.1) ∧ result = .error .dead := by
  rcases h.ended j call time result hcall hawaited hsends hstage with
    ⟨o, outcome, hmem, hreceipt, hresult⟩ | ⟨hnone, hresult⟩
  · exact .inl ⟨o, outcome, List.mem_append_left _ hmem,
      Grown.lookup_of_prefix hgrown.receipts hreceipt, hresult⟩
  · refine .inr ⟨?_, hresult⟩
    rw [List.map_append, List.mem_append, not_or]
    exact ⟨hnone, not_mem_entriesBetween hij⟩

/-- Nothing is queued, and the calls are as they were. -/
theorem same (h : Reported book s) (hgrown : Grown s t) (hcalls : t.calls = s.calls)
    (hlast : t.outbound.lastTicket = s.outbound.lastTicket) :
    Reported (book ++ entriesBetween i s t) t := by
  rw [entriesBetween_of_eq hlast, List.append_nil]
  constructor
  · rw [hcalls]
    exact h.untimed
  · intro j call time result hcall hawaited hsends hstage
    rw [hcalls] at hcall
    refine (h.ended j call time result hcall hawaited hsends hstage).imp_left ?_
    rintro ⟨o, outcome, hmem, hreceipt, hresult⟩
    exact ⟨o, outcome, hmem, Grown.lookup_of_prefix hgrown.receipts hreceipt, hresult⟩

/-- A call comes in. -/
theorem enter (h : Reported book s) {entered : Call} (hstage : entered.stage = .inLine)
    (huntimed : entered.request.awaited? = none → entered.deadline = none)
    (hcalls : t.calls = s.calls ++ [entered]) (hreceipts : t.receipts = s.receipts)
    (hlast : t.outbound.lastTicket = s.outbound.lastTicket) :
    Reported (book ++ entriesBetween i s t) t := by
  rw [entriesBetween_of_eq hlast, List.append_nil]
  constructor
  · intro j call hj hawaited
    rw [hcalls] at hj
    rcases getElem?_append_cases hj with ⟨-, rfl⟩ | hj
    · exact huntimed hawaited
    · exact h.untimed j call hj hawaited
  · intro j call time result hj hawaited hsends hended
    rw [hcalls] at hj
    rcases getElem?_append_cases hj with ⟨-, rfl⟩ | hj
    · cases hstage.symm.trans hended
    · have hold := h.ended j call time result hj hawaited hsends hended
      simpa only [receipt?, hreceipts] using hold

/-- A call goes on, and if it ends it does so with what became of its frame. -/
theorem modify (h : Reported book s) (hgrown : Grown s t) (hcall : s.calls[i]? = some call)
    {f : Call → Call} (hcalls : t.calls = s.calls.modify i f)
    (hrequest : (f call).request = call.request)
    (huntimed : call.request.awaited? = none → (f call).deadline = call.deadline)
    (hended : ∀ time result, call.request.awaited? = none → call.request ≠ .shutdown →
      (f call).stage = .ended time result →
      (∃ (o : Outgoing) (outcome : Except Error Unit), (i, o) ∈ book ++ entriesBetween i s t ∧
        t.receipt? o.ticket = some outcome ∧
        result = outcome.map fun _ => call.request.onceWritten) ∨
      i ∉ (book ++ entriesBetween i s t).map (·.1) ∧ result = .error .dead) :
    Reported (book ++ entriesBetween i s t) t := by
  constructor
  · intro j call' hj hawaited
    rw [hcalls] at hj
    rcases getElem?_modify_cases hcall hj with ⟨rfl, rfl⟩ | ⟨-, hj⟩
    · rw [hrequest] at hawaited
      rw [huntimed hawaited]
      exact h.untimed j call hcall hawaited
    · exact h.untimed j call' hj hawaited
  · intro j call' time result hj hawaited hsends hstage
    rw [hcalls] at hj
    rcases getElem?_modify_cases hcall hj with ⟨rfl, rfl⟩ | ⟨hne, hj⟩
    · rw [hrequest] at hawaited hsends ⊢
      exact hended time result hawaited hsends hstage
    · exact h.of_ne hgrown (Ne.symm hne) hj hawaited hsends hstage

/-- A call goes on and is not over. -/
theorem goOn (h : Reported book s) (hgrown : Grown s t) (hcall : s.calls[i]? = some call)
    {stage : Stage} (hcalls : t.calls = s.calls.modify i (·.atStage stage))
    (hgoing : stage.isOver = false) : Reported (book ++ entriesBetween i s t) t := by
  refine h.modify hgrown hcall hcalls rfl (fun _ => rfl) fun time result _ _ hended => ?_
  obtain rfl : stage = .ended time result := hended
  cases hgoing

/-- What a call for whose response nobody waits ends with. -/
theorem of_ends (h : Reported book s) (hfiled : Filed book s) (hfit : s.CallsFit)
    (hcall : s.calls[i]? = some call) (hawaited : call.request.awaited? = none)
    {result : Except Error Outcome} (hsends : call.request ≠ .shutdown)
    (hends : s.Ends call result) :
    (∃ (o : Outgoing) (outcome : Except Error Unit), (i, o) ∈ book ∧
      s.receipt? o.ticket = some outcome ∧
      result = outcome.map fun _ => call.request.onceWritten) ∨
    i ∉ book.map (·.1) ∧ result = .error .dead := by
  have hfit := hfit i call hcall
  cases hends with
  | stopped hrequest hstage => exact absurd hrequest hsends
  | late hlate =>
    rw [h.untimed i call hcall hawaited] at hlate
    cases hlate
  | settled houtcome =>
    unfold outcome? at houtcome
    cases hstage : call.stage with
    | inLine =>
      simp only [hstage, Option.ite_none_right_eq_some, Option.some.injEq] at houtcome
      exact .inr ⟨hfiled.not_mem_of_isEarly hcall (by rw [hstage]; rfl), houtcome.2.symm⟩
    | forSlot bytes waiter =>
      simp only [hstage, Option.ite_none_right_eq_some, Option.some.injEq] at houtcome
      exact .inr ⟨hfiled.not_mem_of_isEarly hcall (by rw [hstage]; rfl), houtcome.2.symm⟩
    | forWrite ticket waiter =>
      obtain ⟨bytes, hmem⟩ := hfiled.owned i call ticket hcall (by rw [hstage]; rfl)
      simp only [Call.IsFit, hstage, hawaited, Option.isSome_none, Option.isSome_eq_false_iff,
        Option.isNone_iff_eq_none] at hfit
      subst hfit
      simp only [hstage, report?] at houtcome
      rcases hreceipt : s.receipt? ticket with _ | outcome
      · rw [hreceipt] at houtcome
        cases houtcome
      · refine .inl ⟨_, outcome, hmem, hreceipt, ?_⟩
        rw [hreceipt] at houtcome
        cases outcome with
        | error e => exact (Option.some.inj houtcome).symm
        | ok written => exact (Option.some.inj houtcome).symm
    | held ticket waiter =>
      rw [Call.IsFit, hstage] at hfit
      obtain ⟨command, hrequest⟩ := hfit
      rw [hrequest] at hawaited
      cases hawaited
    | forReply waiter =>
      rw [Call.IsFit, hstage, hawaited] at hfit
      cases hfit
    | forPump =>
      rw [Call.IsFit, hstage] at hfit
      exact absurd hfit hsends
    | ended time result =>
      rw [hstage] at houtcome
      cases houtcome
    | dropped =>
      rw [hstage] at houtcome
      cases houtcome

theorem move (h : Reported book s) (hfiled : Filed book s) (hfit : s.CallsFit)
    (hmove : Move i s t) : Reported (book ++ entriesBetween i s t) t := by
  have hgrown := Grown.of_move hmove
  cases hmove with
  | enter request deadline hi hkept hlimit =>
    refine h.enter rfl ?_ rfl rfl rfl
    intro hawaited
    rw [hlimit]
    cases request with
    | exchange command limit => cases hawaited
    | ask query => cases hawaited
    | _ => rfl
  | queue hcall hstage hturn hlive hclaims hopen hroom hready =>
    exact h.goOn hgrown hcall rfl (Stage.isOver_queued ..)
  | block hcall hstage hturn hlive hclaims hopen hroom =>
    exact h.goOn hgrown hcall rfl rfl
  | refuse bytes hcall hstage hturn hlive hclaims hclosed =>
    exact h.goOn hgrown hcall rfl rfl
  | retry hcall hstage hopen hgranted hready =>
    exact h.goOn hgrown hcall rfl (Stage.isOver_queued ..)
  | expect hcall hstage hreceipt hreply =>
    exact h.goOn hgrown hcall rfl rfl
  | await hcall hstage =>
    have hinitiate := hfit i _ hcall
    rw [Call.IsFit, hstage] at hinitiate
    obtain ⟨command, hrequest⟩ := hinitiate
    refine h.modify hgrown hcall rfl rfl (fun hawaited => ?_) fun _ _ hawaited => ?_
    · rw [hrequest] at hawaited
      cases hawaited
    · rw [hrequest] at hawaited
      cases hawaited
  | waitForPump hcall hstage hrequest hrun =>
    exact h.goOn hgrown hcall rfl rfl
  | @finish call stage ready hcall hgoing hover hready =>
    have hlast := lastTicket_withoutCaller s.outbound i call.stage
    refine h.modify hgrown hcall rfl rfl (fun _ => rfl) fun time result hawaited hsends hended => ?_
    obtain rfl : stage = .ended time result := hended
    rcases hover with hdropped | ⟨result', hresult, hends⟩
    · cases hdropped
    · obtain ⟨-, rfl⟩ := Stage.ended.inj hresult
      rw [entriesBetween_of_eq hlast, List.append_nil]
      exact h.of_ends hfiled hfit hcall hawaited hsends hends
  | wrote outcome hpump hrun hqueued hready =>
    exact h.same hgrown rfl (Outbound.lastTicket_pop _)
  | _ => exact h.same hgrown rfl rfl

theorem moves (h : Reported book s) (hfiled : Filed book s) (hfit : s.CallsFit)
    (hmoves : Moves i hs s t) : Reported (book ++ entriesBetween i s t) t := by
  induction hmoves generalizing book with
  | refl s => rwa [entriesBetween_of_eq rfl, List.append_nil]
  | move hmove hrest ih =>
    have hmid := hfiled.move hmove
    have hall := ih (h.move hfiled hfit hmove) hmid (hfit.move hmove)
    rwa [List.append_assoc, hmid.entriesBetween_append hmove.lastTicket_le hrest] at hall
  | @route hs s u frame hrun hrest ih =>
    have hlast := lastTicket_route s frame
    have hroute := h.same (i := i) (Grown.of_route s frame) (calls_route s frame) hlast
    rw [entriesBetween_of_eq hlast, List.append_nil] at hroute
    have hall := ih hroute (hfiled.same (calls_route s frame) hlast)
      (hfit.moves (.route (i := i) hrun (.refl _)))
    rwa [entriesBetween, hlast, ← entriesBetween] at hall

theorem run (h : Reported book s) (hfiled : Filed book s) (hfit : s.CallsFit)
    (hrun : s.run? actions = some t) : Reported (book ++ s.ledger actions) t := by
  induction actions generalizing s book with
  | nil =>
    obtain rfl : s = t := by simpa using hrun
    rwa [Session.ledger, gather, List.append_nil]
  | cons action actions ih =>
    obtain ⟨u, hstep, hrest⟩ := run?_cons_eq_some.1 hrun
    have hpump : Reported book { s with pump := s.pumpAfter action } := ⟨h.untimed, h.ended⟩
    have hfiled' : Filed book { s with pump := s.pumpAfter action } := hfiled.same rfl rfl
    have hfit' : CallsFit { s with pump := s.pumpAfter action } := hfit
    have hmoves := moves_of_step? hstep
    have hnext := hpump.moves hfiled' hfit' hmoves
    rw [ledger_cons hstep, ← List.append_assoc]
    refine ih ?_ (hfiled.step hstep) (hfit'.moves hmoves) hrest
    rw [entries_eq hstep]
    exact hnext

end Reported

theorem reported {settings : Settings} (h₀ : ofSettings settings = .ok s₀)
    (hrun : s₀.run? actions = some t) : Reported (s₀.ledger actions) t := by
  have h := (Reported.nil h₀).run (.nil h₀) (.ofSettings h₀) hrun
  rwa [List.nil_append] at h

/-! ### Who queues nothing any more -/

theorem Move.late (hmove : Move i s t) (hcall : s.calls[i]? = some call)
    (hlate : call.stage.isEarly = false) :
    t.outbound.lastTicket = s.outbound.lastTicket ∧
      ∃ call', t.calls[i]? = some call' ∧ call'.stage.isEarly = false := by
  have hstill : ∀ {call' : Call}, s.calls[i]? = some call' → call'.stage.isEarly = false := by
    intro call' hcall'
    rwa [← Option.some.inj (hcall.symm.trans hcall')]
  have hearly : ∀ {call' : Call} {p : Prop}, s.calls[i]? = some call' →
      call'.stage = .inLine → p := by
    intro call' p hcall' hstage
    have hnot := hstill hcall'
    rw [hstage] at hnot
    cases hnot
  cases hmove with
  | enter request deadline hi =>
    have hlt := (List.getElem?_eq_some_iff.1 hcall).1
    omega
  | queue hcall' hstage hturn hlive hclaims hopen hroom hready => exact hearly hcall' hstage
  | block hcall' hstage hturn hlive hclaims hopen hroom => exact hearly hcall' hstage
  | refuse bytes hcall' hstage hturn hlive hclaims hclosed => exact hearly hcall' hstage
  | retry hcall' hstage hopen hgranted hready =>
    have hnot := hstill hcall'
    rw [hstage] at hnot
    cases hnot
  | expect hcall' hstage hreceipt hreply => exact ⟨rfl, _, getElem?_modify_self hcall' _, rfl⟩
  | await hcall' hstage => exact ⟨rfl, _, getElem?_modify_self hcall' _, rfl⟩
  | waitForPump hcall' hstage hrequest hrun => exact hearly hcall' hstage
  | finish hcall' hgoing hover hready =>
    exact ⟨lastTicket_withoutCaller .., _, getElem?_modify_self hcall' _,
      Stage.isEarly_eq_false_of_isOver (isOver_of_finished hover)⟩
  | wrote outcome hpump hrun hqueued hready =>
    exact ⟨Outbound.lastTicket_pop _, call, hcall, hlate⟩
  | _ => exact ⟨rfl, call, hcall, hlate⟩

theorem Moves.late (hmoves : Moves i hs s t) (hcall : s.calls[i]? = some call)
    (hlate : call.stage.isEarly = false) :
    t.outbound.lastTicket = s.outbound.lastTicket ∧
      ∃ call', t.calls[i]? = some call' ∧ call'.stage.isEarly = false := by
  induction hmoves generalizing call with
  | refl s => exact ⟨rfl, call, hcall, hlate⟩
  | move hmove hrest ih =>
    obtain ⟨hlast, call', hcall', hlate'⟩ := hmove.late hcall hlate
    exact (ih hcall' hlate').imp_left fun h => h.trans hlast
  | route hrun hrest ih =>
    exact (ih (by rwa [calls_route]) hlate).imp_left fun h => h.trans (lastTicket_route _ _)

theorem late_of_step? (hstep : s.step? action = some t) (hcall : s.calls[i]? = some call)
    (hlate : call.stage.isEarly = false) : i ∉ (s.entries action).map (·.1) ∧
      ∃ call', t.calls[i]? = some call' ∧ call'.stage.isEarly = false := by
  have hmoves := moves_of_step? hstep
  by_cases hi : s.actor action = i
  · rw [hi] at hmoves
    obtain ⟨hlast, hafter⟩ := hmoves.late hcall hlate
    have hnone : entriesBetween (s.actor action) s t = [] := entriesBetween_of_eq hlast
    rw [entries_eq hstep, hnone]
    exact ⟨List.not_mem_nil, hafter⟩
  · rw [entries_eq hstep]
    exact ⟨not_mem_entriesBetween hi, call, hmoves.call_of_ne hi hcall, hlate⟩

/-- A call that neither stands in line nor waits for a slot queues nothing any more. -/
theorem not_mem_ledger_of_late (hrun : s.run? actions = some t) (hcall : s.calls[i]? = some call)
    (hlate : call.stage.isEarly = false) : i ∉ (s.ledger actions).map (·.1) := by
  induction actions generalizing s call with
  | nil => exact List.not_mem_nil
  | cons action actions ih =>
    obtain ⟨u, hstep, hrest⟩ := run?_cons_eq_some.1 hrun
    obtain ⟨hnone, call', hcall', hlate'⟩ := late_of_step? hstep hcall hlate
    rw [ledger_cons hstep, List.map_append, List.mem_append, not_or]
    exact ⟨hnone, ih hrest hcall' hlate'⟩

/-- Giving up a call that has not queued its frame queues nothing. -/
theorem abandon_early (hcall : s.calls[i]? = some call) (hearly : call.stage.isEarly = true) :
    (s.abandon i).outbound.lastTicket = s.outbound.lastTicket ∧
      (s.abandon i).calls[i]? = some (call.atStage .dropped) := by
  have habandon : s.abandon i =
      ((s.relinquish i call.stage).setStage i .dropped).takeDownIfUnused := by
    unfold abandon
    rw [stage?_eq hcall]
    cases hstage : call.stage with
    | ended time result =>
      rw [hstage] at hearly
      cases hearly
    | dropped =>
      rw [hstage] at hearly
      cases hearly
    | _ => rfl
  obtain ⟨ready, heq, -⟩ := relinquish_eq s i call.stage
  rw [habandon, calls_takeDownIfUnused, (moves_takeDownIfUnused _ _).lastTicket_eq
    (Nat.lt_succ_self _), setStage_eq, heq]
  exact ⟨lastTicket_withoutCaller .., getElem?_modify_self hcall _⟩

/-- Nobody who hears of the link's answer, or that there will be none, is left waiting for it. -/
theorem over_of_settled (hs : s.Reachable) (hfiled : Filed book s) (hflows : Flows book past lost s)
    (hquiet : ∀ j, .caller j ∉ s.ready) (hcall : s.calls[i]? = some call)
    (hawaited : call.request.awaited? = none) (hsends : call.request ≠ .shutdown)
    (hdealt : s.pumpState.isOver = true ∨
      ∃ (o : Outgoing) (outcome : Except Error Unit), (i, o) ∈ book ∧ (o, outcome) ∈ past) :
    call.stage.isOver = true := by
  have hsound := Sound.of_reachable hs
  have hfit := hsound.fit i call hcall
  obtain ⟨hawake, hexclusive⟩ := awake_of_reachable hs i call hcall
  have hstuck : ¬ s.CanGoOn i call := fun hgo => hquiet i (hawake hgo)
  -- a call that has not queued its frame learns only that the queue is closed
  have hearly : call.stage.isEarly = true → s.outbound.closed = true := by
    intro hearly
    rcases hdealt with hover | ⟨o, outcome, hmem, -⟩
    · exact hsound.life.outbound_closed.trans hover
    · exact absurd (List.mem_map_of_mem hmem) (hfiled.not_mem_of_isEarly hcall hearly)
  cases hstage : call.stage with
  | inLine =>
    have hsome := hexclusive hstage
    rw [← Request.awaited?_eq hsome, hawaited] at hsome
    cases hsome
  | forSlot bytes waiter =>
    refine absurd ?_ hstuck
    rw [CanGoOn, hstage]
    exact .inl (hearly (by rw [hstage]; rfl))
  | forWrite ticket waiter =>
    refine absurd ?_ hstuck
    rw [CanGoOn, hstage]
    have hplace : call.stage.place = .frame ticket := by rw [hstage]; rfl
    rcases hdealt with hover | ⟨o, outcome, hmem, hpast⟩
    · have hget := QueueSound.getElem?_places hcall
      rw [hplace] at hget
      refine (hsound.queue.reported i ticket hget).resolve_left ?_
      rw [(hsound.queue.empty (hsound.life.outbound_closed.trans hover)).1]
      exact List.not_mem_nil
    · obtain ⟨bytes, hmem'⟩ := hfiled.owned i call ticket hcall hplace
      obtain rfl := hfiled.eq_of_mem hmem hmem'
      refine ⟨outcome, ?_⟩
      rw [hflows.receipts]
      exact List.mem_append_left _ (List.mem_map.2 ⟨_, hpast, rfl⟩)
  | forReply waiter =>
    rw [Call.IsFit, hstage, hawaited] at hfit
    cases hfit
  | held ticket waiter =>
    rw [Call.IsFit, hstage] at hfit
    obtain ⟨command, hrequest⟩ := hfit
    rw [hrequest] at hawaited
    cases hawaited
  | forPump =>
    rw [Call.IsFit, hstage] at hfit
    exact absurd hfit hsends
  | ended time result => rfl
  | dropped => rfl

/-- A call for whose response nobody waits ends as its frame has fared. -/
theorem Reported.result_of_ended (h : Reported book s) (hfiled : Filed book s)
    (hflows : Flows book past lost s) (hs : s.Sound) (hcall : s.calls[i]? = some call)
    (hawaited : call.request.awaited? = none) (hsends : call.request ≠ .shutdown) {time : Nat}
    {result : Except Error Outcome} (hstage : call.stage = .ended time result) :
    (result = .ok call.request.onceWritten ↔ ∃ o, (i, o) ∈ book ∧ (o, .ok ()) ∈ past) ∧
    (∀ e, result = .error e → (∃ o, (i, o) ∈ book ∧ (o, .error e) ∈ past) ∨
      e = .dead ∧ ∀ o, (i, o) ∈ book → o ∉ past.map (·.1)) ∧
    ((∀ o, (i, o) ∈ book → o ∉ past.map (·.1)) → result = .error .dead) := by
  rcases h.ended i call time result hcall hawaited hsends hstage with
    ⟨o, outcome, hmem, hreceipt, rfl⟩ | ⟨hnone, rfl⟩
  · have hfate : ∀ outcome, s.receipt? o.ticket = some outcome ↔ (o, outcome) ∈ past ∨
        outcome = .error .dead ∧ s.pumpState.isOver = true ∧ o ∉ past.map (·.1) :=
      fun outcome => hflows.receipt?_iff hfiled hs (List.mem_map_of_mem hmem)
    have honly : ∀ o', (i, o') ∈ book → o' = o := fun o' ho' => hfiled.eq_of_mem ho' hmem
    refine ⟨⟨fun hok => ?_, ?_⟩, ?_, ?_⟩
    · cases outcome with
      | error e => cases hok
      | ok written =>
        rcases (hfate (.ok ())).1 hreceipt with hpast | ⟨hdead, -⟩
        · exact ⟨o, hmem, hpast⟩
        · cases hdead
    · rintro ⟨o', ho', hpast⟩
      obtain rfl := honly o' ho'
      have hok := (hfate (.ok ())).2 (.inl hpast)
      rw [Option.some.inj (hreceipt.symm.trans hok)]
      rfl
    · intro e he
      cases outcome with
      | ok written => cases he
      | error e' =>
        obtain rfl : e' = e := Except.error.inj he
        rcases (hfate (.error e')).1 hreceipt with hpast | ⟨hdead, -, hnot⟩
        · exact .inl ⟨o, hmem, hpast⟩
        · refine .inr ⟨Except.error.inj hdead, fun o' ho' => ?_⟩
          rwa [honly o' ho']
    · intro hnot
      rcases (hfate outcome).1 hreceipt with hpast | ⟨rfl, -⟩
      · exact absurd (List.mem_map_of_mem hpast) (hnot o hmem)
      · rfl
  · have hno : ∀ o, (i, o) ∉ book := fun o ho => hnone (List.mem_map_of_mem ho)
    refine ⟨⟨nofun, fun ⟨o, ho, _⟩ => absurd ho (hno o)⟩, ?_, fun _ => rfl⟩
    intro e he
    exact .inr ⟨(Except.error.inj he).symm, fun o ho => absurd ho (hno o)⟩

/-- **Frames pass in order.** After any run, the frames that the link was given are the first of the
frames that got into the queue, each of them whole and once, and as long as the pump is there the
others are still in the queue. Every call has queued one frame at most, the one that it was asked to
have written, and none is given to the link once the pump has been told to stop or is gone. What is
noted of a queued frame is the link's answer, or that the session is dead if the pump was gone
before the link got it. A call for whose response nobody waits ends well if the link took its frame,
with the link's error if that is what it answered, and as dead if the link never got the frame; it
is over as soon as that is known and nobody has a reason to take a turn. A call that stands in line
or waits for a slot has queued nothing, and neither a call that is given up there nor one that is
over queues anything afterwards. -/
theorem frames_pass_in_order {settings : Settings} (h₀ : ofSettings settings = .ok s₀)
    (hrun : s₀.run? actions = some t) :
    (s₀.passed actions).map (·.1) <+: (s₀.ledger actions).map (·.2) ∧
    (t.pumpState.isOver = false → (s₀.ledger actions).map (·.2) =
      (s₀.passed actions).map (·.1) ++ t.outbound.queued) ∧
    (s₀.ledger actions).map (·.2.ticket) = List.range' 1 t.outbound.lastTicket ∧
    ((s₀.ledger actions).map (·.1)).Nodup ∧
    (∀ i o, (i, o) ∈ s₀.ledger actions →
      ∃ call : Call, t.calls[i]? = some call ∧ call.request.frame? = some o.bytes) ∧
    (s₀.linkHistory actions).filterMap LinkUse.written? = (s₀.passed actions).map (·.1.bytes) ∧
    (∀ before after u, actions = before ++ after → s₀.run? before = some u →
      u.cancelled = true ∨ u.pumpState.isOver = true → s₀.passed actions = s₀.passed before) ∧
    (∀ i o outcome, (i, o) ∈ s₀.ledger actions →
      (t.receipt? o.ticket = some outcome ↔ (o, outcome) ∈ s₀.passed actions ∨
        outcome = .error .dead ∧ t.pumpState.isOver = true ∧ o ∉ (s₀.passed actions).map (·.1))) ∧
    (∀ (i : Nat) (call : Call) (time : Nat) (result : Except Error Outcome),
      t.calls[i]? = some call → call.request.awaited? = none → call.request ≠ .shutdown →
      call.stage = .ended time result →
      (result = .ok call.request.onceWritten ↔
        ∃ o, (i, o) ∈ s₀.ledger actions ∧ (o, .ok ()) ∈ s₀.passed actions) ∧
      (∀ e, result = .error e →
        (∃ o, (i, o) ∈ s₀.ledger actions ∧ (o, .error e) ∈ s₀.passed actions) ∨
          e = .dead ∧ ∀ o, (i, o) ∈ s₀.ledger actions → o ∉ (s₀.passed actions).map (·.1)) ∧
      ((∀ o, (i, o) ∈ s₀.ledger actions → o ∉ (s₀.passed actions).map (·.1)) →
        result = .error .dead)) ∧
    ((∀ j, .caller j ∉ t.ready) → ∀ (i : Nat) (call : Call),
      t.calls[i]? = some call → call.request.awaited? = none → call.request ≠ .shutdown →
      (t.pumpState.isOver = true ∨
        ∃ o outcome, (i, o) ∈ s₀.ledger actions ∧ (o, outcome) ∈ s₀.passed actions) →
      call.stage.isOver = true) ∧
    (∀ (i : Nat) (call : Call), t.calls[i]? = some call → call.stage.isEarly = true →
      i ∉ (s₀.ledger actions).map (·.1) ∧
      ∀ after v, t.run? (.abandon i :: after) = some v →
        i ∉ (s₀.ledger (actions ++ .abandon i :: after)).map (·.1)) ∧
    (∀ (i : Nat) (call : Call), t.calls[i]? = some call → call.stage.isOver = true →
      ∀ after v, t.run? after = some v → i ∉ (t.ledger after).map (·.1)) := by
  have hfiled := filed h₀ hrun
  obtain ⟨lost, hflows⟩ := exists_flows h₀ hrun
  have hreach : t.Reachable := .run (.refl h₀) hrun
  have hreceipt : ∀ i o outcome, (i, o) ∈ s₀.ledger actions →
      (t.receipt? o.ticket = some outcome ↔ (o, outcome) ∈ s₀.passed actions ∨
        outcome = .error .dead ∧ t.pumpState.isOver = true ∧ o ∉ (s₀.passed actions).map (·.1)) :=
    fun i o outcome hmem =>
      hflows.receipt?_iff hfiled (.of_reachable hreach) (List.mem_map_of_mem hmem)
  refine ⟨?_, ?_, hfiled.numbered, hfiled.once, ?_, written?_linkHistory hrun, ?_, hreceipt, ?_, ?_,
    ?_, ?_⟩
  · rw [hflows.frames, List.append_assoc]
    exact List.prefix_append _ _
  · intro hover
    rw [hflows.frames, hflows.kept ((LifeSound.of_reachable hreach).outbound_closed.trans hover),
      List.append_nil]
  · intro i o hmem
    obtain ⟨call, hcall, hframe, -⟩ := hfiled.entered _ hmem
    exact ⟨call, hcall, hframe⟩
  · rintro before after u rfl hbefore hstopped
    have hrest : ¬ u.IsRunning := by
      rintro ⟨hcancel, hover⟩
      rcases hstopped with h | h
      · rw [hcancel] at h
        cases h
      · rw [hover] at h
        cases h
    rw [passed, log_append hbefore, log_eq_nil hrest, List.append_nil, passed]
  · intro i call time result hcall hawaited hsends hstage
    exact (reported h₀ hrun).result_of_ended hfiled hflows (.of_reachable hreach) hcall hawaited
      hsends hstage
  · intro hquiet i call hcall hawaited hsends
    exact over_of_settled hreach hfiled hflows hquiet hcall hawaited hsends
  · intro i call hcall hearly
    have hbefore := hfiled.not_mem_of_isEarly hcall hearly
    refine ⟨hbefore, fun after v hafter => ?_⟩
    obtain ⟨u, hstep, hrest⟩ := run?_cons_eq_some.1 hafter
    obtain rfl := Option.some.inj hstep
    obtain ⟨hlast, hdropped⟩ := abandon_early hcall hearly
    rw [ledger, gather_append hrun, ← ledger, ← ledger, ledger_cons hstep, entries_eq hstep,
      entriesBetween_of_eq hlast, List.nil_append, List.map_append, List.mem_append, not_or]
    exact ⟨hbefore, not_mem_ledger_of_late hrest hdropped rfl⟩
  · intro i call hcall hover after v hafter
    exact not_mem_ledger_of_late hafter hcall (Stage.isEarly_eq_false_of_isOver hover)

/-- Four callers at a queue with one slot: the second gives up while he waits for it, the frame of
the third is refused by the link, and that of the fourth is still in the queue when the session is
ended. -/
def crowdedQueue : List Action :=
  [.call (.send (.bare 0x00 0x01)), .call (.send (.bare 0x00 0x02)),
    .call (.send (.bare 0x00 0x06)), .abandon 1, .write (.ok ()), .turn 2, .turn 0,
    .call (.send (.bare 0x00 0x05)), .write (.error .timeout), .turn 2, .turn 3,
    .call .shutdown, .halt, .turn 3]

theorem frames_pass_in_order_crowded : ∃ s₀ t, ofSettings { outboundCapacity := 1 } = .ok s₀ ∧
    s₀.run? crowdedQueue = some t ∧ (s₀.ledger crowdedQueue).map (·.1) = [0, 2, 3] ∧
    (s₀.passed crowdedQueue).map (·.1) <+: (s₀.ledger crowdedQueue).map (·.2) ∧
    (s₀.passed crowdedQueue).map (·.2) = [.ok (), .error .timeout] ∧
    t.stage? 0 = some (.ended 0 (.ok .written)) ∧ t.stage? 2 = some (.ended 0 (.error .timeout)) ∧
    t.receipt? 3 = some (.error .dead) := by
  have h₀ : ofSettings { outboundCapacity := 1 } = .ok _ := rfl
  have hfate : ∀ {s₀ t : Session}, ofSettings { outboundCapacity := 1 } = .ok s₀ →
      s₀.run? crowdedQueue = some t →
      (3, ⟨3, Command.bytes (.bare 0x00 0x05)⟩) ∈ s₀.ledger crowdedQueue →
      t.pumpState.isOver = true →
      ⟨3, Command.bytes (.bare 0x00 0x05)⟩ ∉ (s₀.passed crowdedQueue).map (·.1) →
      (s₀.passed crowdedQueue).map (·.1) <+: (s₀.ledger crowdedQueue).map (·.2) ∧
        t.receipt? 3 = some (.error .dead) := by
    intro s₀ t h₀ hrun hmem hover hnot
    obtain ⟨hfirst, -, -, -, -, -, -, hreceipt, -⟩ := frames_pass_in_order h₀ hrun
    exact ⟨hfirst, (hreceipt 3 _ _ hmem).2 (.inr ⟨rfl, hover, hnot⟩)⟩
  have hboth := hfate h₀ (Option.some_get (by decide +kernel)).symm (by decide +kernel)
    (by decide +kernel) (by decide +kernel)
  exact ⟨_, _, h₀, (Option.some_get (by decide +kernel)).symm, by decide +kernel, hboth.1,
    by decide +kernel, by decide +kernel, by decide +kernel, hboth.2⟩

end Session

end BleHost
