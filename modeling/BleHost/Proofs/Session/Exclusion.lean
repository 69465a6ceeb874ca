import BleHost.Proofs.Session.Backlog
import BleHost.Proofs.Session.Deadlines
import BleHost.Proofs.Session.Sending

/-!
# One exchange at a time

Exchanges stand in line in the order in which they come in, and only the one at the head of the line
gets a waiter and queues its frame (`holder?_of_mem_entries`), when all that have held that place
before are over (`over_of_holder?`). So where every response is awaited in an exchange there is one
waiter at most; an exchange that does not get its turn within its time limit leaves no frame behind,
and one that ends leaves the others as they are (`exchanges_take_turns`).
-/

namespace BleHost

namespace Session

variable {i j w : Nat} {s s₀ t u v x y : Session} {call call' : Call} {hs : List (Session × Frame)}
  {action : Action} {actions : List Action} {o : Outgoing}

/-- The line, with the exchange that an action brings in. -/
def lineDuring (s : Session) : Action → List Nat
  | .call request => if request.exclusive?.isSome then s.line ++ [s.calls.length] else s.line
  | _ => s.line

/-- The exchange whose turn it is during an action. -/
def holder? (s : Session) (action : Action) : Option Nat := (s.lineDuring action).head?

theorem holder?_of_head (hhead : s.line.head? = some i) : s.holder? action = some i := by
  unfold holder? lineDuring
  split
  · split
    · rw [List.head?_append, hhead, Option.some_or]
    · exact hhead
  · exact hhead

theorem mem_lineDuring (h : j ∈ s.lineDuring action) : j ∈ s.line ∨
    ∃ request : Request, action = .call request ∧ request.exclusive?.isSome = true ∧
      j = s.calls.length := by
  unfold lineDuring at h
  split at h
  · rename_i request
    split at h
    · rename_i hexclusive
      refine (List.mem_append.1 h).imp_right fun hlast => ?_
      exact ⟨request, rfl, hexclusive, List.mem_singleton.1 hlast⟩
    · exact .inl h
  · exact .inl h

/-- Whose turn it was during a run, action by action. -/
def holders (s : Session) (actions : List Action) : List Nat :=
  gather (fun s action => (s.holder? action).toList) s actions

/-! ### The order in the line -/

theorem Move.sorted_line (hmove : Move i s t) (hline : s.LineSound) (h : s.line.Pairwise (· < ·)) :
    t.line.Pairwise (· < ·) := by
  cases hmove with
  | enter request deadline hi =>
    show (if _ then s.line ++ [i] else s.line).Pairwise _
    split
    · refine List.pairwise_append.2 ⟨h, List.pairwise_singleton _ _, fun j hj k hk => ?_⟩
      obtain ⟨call, hcall, -⟩ := (hline.mem j).1 hj
      rw [List.mem_singleton.1 hk, hi]
      exact (List.getElem?_eq_some_iff.1 hcall).1
    · exact h
  | finish hcall hgoing hover hready => exact h.sublist List.erase_sublist
  | _ => exact h

/-- Exchanges stand in line in the order in which they came in. -/
theorem sorted_line (h : s.Reachable) : s.line.Pairwise (· < ·) := by
  refine (h.induction (P := fun s => s.LineSound ∧ s.line.Pairwise (· < ·)) ?_ ?_ ?_).2
  · intro settings s hset
    refine ⟨.ofSettings hset, ?_⟩
    rw [eq_of_ofSettings hset]
    exact .nil
  · exact fun s pump h => ⟨h.1.of_eq rfl rfl, h.2⟩
  · intro i hs s t h hmoves
    induction hmoves with
    | refl s => exact h
    | move hmove hrest ih => exact ih ⟨h.1.move hmove, hmove.sorted_line h.1 h.2⟩
    | @route hs s u frame hrun hrest ih =>
      obtain ⟨outstanding, news, hub, ready, heq, -⟩ := route_eq s frame
      exact ih ⟨h.1.of_eq (by rw [heq]) (by rw [heq]), by rw [heq]; exact h.2⟩

/-- Whoever came in before the head of the line is over. -/
theorem over_of_lt (hs : s.Reachable) (hfirst : ∀ k ∈ s.line, i ≤ k) (hji : j < i)
    (hcall : s.calls[j]? = some call) (hexclusive : call.request.exclusive?.isSome = true) :
    call.stage.isOver = true := by
  by_contra hgoing
  have hmem : j ∈ s.line :=
    ((LineSound.of_reachable hs).mem j).2 ⟨call, hcall, hexclusive, by simpa using hgoing⟩
  have hle := hfirst j hmem
  omega

/-- Nobody in line came in before the head of it. -/
theorem le_of_holder? (hs : s.Reachable) (hholder : s.holder? action = some i) :
    ∀ k ∈ s.line, i ≤ k := by
  intro k hk
  rcases hline : s.line with _ | ⟨first, rest⟩
  · rw [hline] at hk
    cases hk
  · have hhead : s.holder? action = some first := holder?_of_head (by rw [hline]; rfl)
    obtain rfl := Option.some.inj (hholder.symm.trans hhead)
    have hsorted := sorted_line hs
    rw [hline] at hk hsorted
    rcases List.mem_cons.1 hk with rfl | hk
    · exact Nat.le_refl _
    · exact Nat.le_of_lt ((List.pairwise_cons.1 hsorted).1 k hk)

/-! ### Only the head of the line queues a frame -/

/-- An exchange that queues its frame is at the head of the line. -/
theorem Move.head_of_push (hmove : Move i s t) (hline : s.LineSound)
    (hexclusive : ∀ call, t.calls[i]? = some call → call.request.exclusive?.isSome = true)
    (hne : t.outbound.lastTicket ≠ s.outbound.lastTicket) : s.line.head? = some i := by
  cases hmove with
  | queue hcall hstage hturn hlive hclaims hopen hroom hready =>
    have hafter := hexclusive _ (getElem?_modify_self hcall _)
    exact hturn hafter
  | @retry call bytes waiter ready hcall hstage hopen hgranted hready =>
    have hafter := hexclusive _ (getElem?_modify_self hcall _)
    refine hline.begun i call hcall hafter ?_ ?_
    · rw [hstage]
      rfl
    · rw [hstage]
      exact nofun
  | finish hcall hgoing hover hready => exact absurd (lastTicket_withoutCaller ..) hne
  | wrote outcome hpump hrun hqueued hready => exact absurd (Outbound.lastTicket_pop _) hne
  | _ => exact absurd rfl hne

/-- A call comes to the head of the line by its own move only when it comes in. -/
theorem Move.head_before (hmove : Move i s t) (hline : s.LineSound)
    (h : t.line.head? = some i ∨ t.line = [] ∧ t.calls.length = i) :
    s.line.head? = some i ∨ s.line = [] ∧ s.calls.length = i := by
  cases hmove with
  | enter request deadline hi =>
    rcases h with hhead | ⟨-, hlength⟩
    · rcases hempty : s.line with _ | ⟨first, rest⟩
      · exact .inr ⟨rfl, hi.symm⟩
      · refine .inl ?_
        simp only [hempty] at hhead
        split at hhead
        · exact hhead
        · exact hhead
    · simp only [List.length_append, List.length_singleton] at hlength
      omega
  | finish hcall hgoing hover hready =>
    rcases h with hhead | ⟨-, hlength⟩
    · exact absurd (List.mem_of_head? hhead) hline.distinct.not_mem_erase
    · rw [List.length_modify] at hlength
      have hlt := (List.getElem?_eq_some_iff.1 hcall).1
      omega
  | _ => simpa using h

theorem Moves.head_of_push (hmoves : Moves i hs s t) (hline : s.LineSound)
    (hexclusive : ∀ call, t.calls[i]? = some call → call.request.exclusive?.isSome = true)
    (hne : t.outbound.lastTicket ≠ s.outbound.lastTicket) :
    s.line.head? = some i ∨ s.line = [] ∧ s.calls.length = i := by
  induction hmoves with
  | refl s => exact absurd rfl hne
  | @move hs s u t hmove hrest ih =>
    by_cases hfirst : u.outbound.lastTicket = s.outbound.lastTicket
    · exact hmove.head_before hline (ih (hline.move hmove) hexclusive (by rwa [hfirst]))
    · refine .inl (hmove.head_of_push hline (fun call hcall => ?_) hfirst)
      obtain ⟨call', hcall', hrequest, -⟩ := (Later.of_moves hrest).call i call hcall
      rw [← hrequest]
      exact hexclusive call' hcall'
  | @route hs s u frame hrun hrest ih =>
    obtain ⟨outstanding, news, hub, ready, heq, -⟩ := route_eq s frame
    rw [heq] at ih
    exact ih (hline.of_eq rfl rfl) hexclusive hne

/-- Calls only come in as calls that are made. -/
theorem exists_request (hs : s.Reachable) (hstep : s.step? action = some t)
    (hcall : t.calls[j]? = some call) :
    (∃ call', s.calls[j]? = some call' ∧ call'.request = call.request) ∨
      action = .call call.request ∧ j = s.calls.length := by
  rcases hbefore : s.calls[j]? with _ | call'
  · refine .inr ?_
    have hown : s.IsOwn j action := by
      by_contra hown
      obtain ⟨i, hij, hactor⟩ := exists_isActor_ne hown
      rw [(moves_of_isActor hactor hstep).getElem?_of_ne hij] at hcall
      cases hbefore.symm.trans hcall
    rcases own_of_nobody hstep hown hbefore with ⟨request, rfl, rfl⟩ | ⟨ready, rfl⟩
    · obtain ⟨call', hcall', hrequest, -⟩ := exists_call_of_step? hs hstep
      rw [Option.some.inj (hcall.symm.trans hcall'), hrequest]
      exact ⟨rfl, rfl⟩
    · cases hbefore.symm.trans hcall
  · exact .inl ⟨call', rfl, ((Later.of_step? hstep).request_eq hbefore hcall).symm⟩

theorem exists_call_of_mem_entries (hs : s.Reachable) (hstep : s.step? action = some t)
    (hmem : (i, o) ∈ s.entries action) : ∃ call : Call, t.calls[i]? = some call := by
  obtain ⟨settings, s₀, before, h₀, hbefore⟩ := hs
  have hrun : s₀.run? (before ++ [action]) = some t :=
    run?_append hbefore (run?_cons_eq_some.2 ⟨t, hstep, run?_nil t⟩)
  obtain ⟨call, hcall, -⟩ :=
    (filed h₀ hrun).entered _ (mem_gather_of_step? hbefore hstep hmem)
  exact ⟨call, hcall⟩

/-- An exchange whose frame is queued has its turn. -/
theorem holder?_of_mem_entries (hs : s.Reachable) (hstep : s.step? action = some t)
    (hmem : (i, o) ∈ s.entries action) (hlater : Later t u) (hcall : u.calls[i]? = some call)
    (hexclusive : call.request.exclusive?.isSome = true) : s.holder? action = some i := by
  obtain ⟨now, hnow⟩ := exists_call_of_mem_entries hs hstep hmem
  have hexclusive' : now.request.exclusive?.isSome = true := by
    rwa [hlater.request_eq hnow hcall] at hexclusive
  have hmoves := moves_of_step? hstep
  rw [entries_eq hstep] at hmem
  have hne : t.outbound.lastTicket ≠ s.outbound.lastTicket := by
    intro hlast
    rw [entriesBetween_of_eq hlast] at hmem
    cases hmem
  have hactor : s.actor action = i := by
    by_contra hi
    exact not_mem_entriesBetween hi (List.mem_map_of_mem hmem)
  rw [hactor] at hmoves
  have hline : LineSound { s with pump := s.pumpAfter action } :=
    (LineSound.of_reachable hs).of_eq rfl rfl
  have hboth := hmoves.head_of_push hline
    (fun call' hcall' => by rwa [Option.some.inj (hcall'.symm.trans hnow)]) hne
  rcases hboth with hhead | ⟨hempty, hlength⟩
  · exact holder?_of_head hhead
  · rcases exists_request hs hstep hnow with ⟨call', hbefore, -⟩ | ⟨rfl, hi⟩
    · have hlt : i < s.calls.length := (List.getElem?_eq_some_iff.1 hbefore).1
      exact absurd hlt (Nat.not_lt.2 (Nat.le_of_eq hlength))
    · have hempty : s.line = [] := hempty
      rw [holder?, lineDuring, if_pos hexclusive', hempty, hi]
      rfl

theorem mem_holders_of_mem_ledger (hs : s.Reachable) (hrun : s.run? actions = some t)
    (hmem : (i, o) ∈ s.ledger actions) (hcall : t.calls[i]? = some call)
    (hexclusive : call.request.exclusive?.isSome = true) : i ∈ s.holders actions := by
  obtain ⟨before, action, after, u, v, rfl, hbefore, hstep, hmem⟩ := exists_of_mem_gather hmem
  obtain ⟨v', hstep', hrest⟩ := run?_cons_eq_some.1 (run?_of_append hrun hbefore)
  obtain rfl := Option.some.inj (hstep.symm.trans hstep')
  have hholder :=
    holder?_of_mem_entries (hs.run hbefore) hstep hmem (.of_run? hrest) hcall hexclusive
  exact mem_gather_of_step? hbefore hstep (Option.mem_toList.2 hholder)

/-! ### Those who had their turn before -/

/-- Whoever has his turn has an exchange. -/
theorem exists_call_of_holder? (hs : s.Reachable) (hstep : s.step? action = some t)
    (hholder : s.holder? action = some j) :
    j ≤ s.calls.length ∧ ∃ call : Call, t.calls[j]? = some call ∧
      call.request.exclusive?.isSome = true := by
  rcases mem_lineDuring (List.mem_of_head? hholder) with hmem | ⟨request, rfl, hexclusive, rfl⟩
  · obtain ⟨call, hcall, hexclusive, -⟩ := ((LineSound.of_reachable hs).mem j).1 hmem
    obtain ⟨call', hcall', hrequest, -⟩ := (Later.of_step? hstep).call j call hcall
    refine ⟨Nat.le_of_lt (List.getElem?_eq_some_iff.1 hcall).1, call', hcall', ?_⟩
    rw [hrequest, hexclusive]
  · obtain ⟨call, hcall, hrequest, -⟩ := exists_call_of_step? hs hstep
    exact ⟨Nat.le_refl _, call, hcall, by rw [hrequest, hexclusive]⟩

/-- When an exchange queues its frame, whoever had his turn before is over. -/
theorem over_of_holder? (hx : x.Reachable) (hfirst : x.holder? action' = some j)
    (hmid : x.run? (action' :: actions) = some u) (hstep : u.step? action = some v)
    (hmem : (i, o) ∈ u.entries action) (hlater : Later v t) (hcall : t.calls[i]? = some call)
    (hexclusive : call.request.exclusive?.isSome = true) (hij : j ≠ i) :
    ∃ call' : Call, u.calls[j]? = some call' ∧ call'.stage.isOver = true := by
  have hu : u.Reachable := hx.run hmid
  have hholder := holder?_of_mem_entries hu hstep hmem hlater hcall hexclusive
  obtain ⟨y, hstep', hrest⟩ := run?_cons_eq_some.1 hmid
  obtain ⟨hle, entered, hentered, hexclusive'⟩ := exists_call_of_holder? hx hstep' hfirst
  obtain ⟨call', hcall', hrequest, -⟩ := (Later.of_run? hrest).call j entered hentered
  refine ⟨call', hcall', ?_⟩
  rcases Nat.lt_or_gt_of_ne hij with hlt | hgt
  · exact over_of_lt hu (le_of_holder? hu hholder) hlt hcall' (by rw [hrequest, hexclusive'])
  · -- an exchange that came in before would be over, and would not queue anything any more
    have hrun : x.run? (action' :: actions ++ [action]) = some v :=
      run?_append hmid (run?_cons_eq_some.2 ⟨v, hstep, run?_nil v⟩)
    have hbefore := List.getElem?_eq_getElem (Nat.lt_of_lt_of_le hgt hle)
    rw [((Later.of_run? hrun).trans hlater).request_eq hbefore hcall] at hexclusive
    have hover := over_of_lt hx (le_of_holder? hx hfirst) hgt hbefore hexclusive
    exact absurd (List.mem_map_of_mem (mem_gather_of_step? hmid hstep hmem))
      (not_mem_ledger_of_late hrun hbefore (Stage.isEarly_eq_false_of_isOver hover))

/-! ### One waiter at most -/

/-- Every call has come in as one that was made. -/
theorem call_mem_of_run? (hs : s.Reachable) (hrun : s.run? actions = some t)
    (hcall : t.calls[j]? = some call) :
    (∃ call', s.calls[j]? = some call' ∧ call'.request = call.request) ∨
      .call call.request ∈ actions := by
  induction actions generalizing s with
  | nil =>
    obtain rfl : s = t := by simpa using hrun
    exact .inl ⟨call, hcall, rfl⟩
  | cons action actions ih =>
    obtain ⟨u, hstep, hrest⟩ := run?_cons_eq_some.1 hrun
    rcases ih (hs.step hstep) hrest with ⟨mid, hmid, hrequest⟩ | hmem
    · rcases exists_request hs hstep hmid with ⟨call', hcall', hrequest'⟩ | ⟨rfl, -⟩
      · exact .inl ⟨call', hcall', hrequest'.trans hrequest⟩
      · exact .inr (by rw [hrequest]; exact List.mem_cons_self)
    · exact .inr (List.mem_cons_of_mem _ hmem)

/-- Where no exchange is handed over, all of them exclude each other. -/
theorem serial_of_run? {settings : Settings} (h₀ : ofSettings settings = .ok s₀)
    (hrun : s₀.run? actions = some t)
    (hserial : ∀ command, .call (.initiate command) ∉ actions) : t.Serial := by
  intro call hmem hawaited
  obtain ⟨j, hj⟩ := List.mem_iff_getElem?.1 hmem
  have hmade : .call call.request ∈ actions := by
    refine (call_mem_of_run? (.refl h₀) hrun hj).resolve_left ?_
    rintro ⟨call', hcall', -⟩
    rw [eq_of_ofSettings h₀] at hcall'
    simp at hcall'
  cases hrequest : call.request with
  | initiate command =>
    rw [hrequest] at hmade
    exact absurd hmade (hserial command)
  | _ =>
    rw [hrequest] at hawaited
    exact hawaited

/-- Where all exchanges exclude each other, one waits at most. -/
theorem Sound.pending_le_one (hs : s.Sound) (hserial : s.Serial) : s.pending ≤ 1 := by
  have hsorted := hs.waiters.sorted
  rw [pending, Outstanding.size]
  rcases hwaiters : s.outstanding.waiters with _ | ⟨first, _ | ⟨second, rest⟩⟩
  · exact Nat.zero_le _
  · exact Nat.le_refl _
  · have hboth : first = second := by
      refine hs.eq_of_waits hserial ?_ ?_
      · rw [hwaiters]
        exact List.mem_cons_self
      · rw [hwaiters]
        exact List.mem_cons_of_mem _ List.mem_cons_self
    rw [hwaiters, hboth] at hsorted
    exact absurd (List.rel_of_pairwise_cons hsorted List.mem_cons_self) (Nat.lt_irrefl _)

/-! ### Exchanges that are over -/

/-- Whoever is over does not wait any more. -/
theorem not_mem_waiters_of_over {settings : Settings} (h₀ : ofSettings settings = .ok s₀)
    (hrun : s₀.run? actions = some t) (hmem : (i, w) ∈ s₀.roster actions)
    (hcall : t.calls[i]? = some call) (hover : call.stage.isOver = true) :
    w ∉ t.outstanding.waiters.map (·.id) := by
  rw [waiters_eq_roster h₀ hrun]
  intro hwaits
  obtain ⟨⟨i', w'⟩, hentry, rfl⟩ := List.mem_map.1 hwaits
  obtain ⟨hmem', hawaited⟩ := List.mem_filter.1 hentry
  have hnodup : ((s₀.roster actions).map (·.2)).Nodup := by
    rw [roster_map_snd hrun]
    exact List.nodup_range'
  obtain ⟨rfl, -⟩ := Prod.mk.inj (List.inj_on_of_nodup_map hnodup hmem hmem' rfl)
  rw [isAwaited, holds_eq hcall, Stage.waiter?_eq_none_of_isOver hover] at hawaited
  cases hawaited

/-- An exchange that is made is over when its time is, once nobody has a reason to take a turn. -/
theorem over_of_limit {request : Request} {after : List Action} {limit : Nat}
    (hu : u.Reachable) (hstep : u.step? (.call request) = some v) (hrest : v.run? after = some t)
    (hquiet : ∀ j, .caller j ∉ t.ready)
    (hlimit : request.limit? u.settings.commandTimeout = some limit)
    (hlate : u.now + limit ≤ t.now) :
    ∃ call : Call, t.calls[u.calls.length]? = some call ∧ call.request = request ∧
      call.stage.isOver = true := by
  have hexclusive : request.exclusive?.isSome = true := by
    cases request with
    | exchange command limit => rfl
    | ask query => rfl
    | _ => cases hlimit
  have hv : v.Reachable := hu.step hstep
  obtain ⟨entered, hentered, hrequest, hdeadline⟩ := exists_call_of_step? hu hstep
  obtain ⟨call, hcall, hrequest', -⟩ := (Later.of_run? hrest).call _ entered hentered
  have hentered' : entered.request.exclusive?.isSome = true := by rw [hrequest, hexclusive]
  have hkept := deadline_eq_of_run? hv hrest hentered hentered' hcall
  rw [hdeadline hexclusive, hlimit, Option.map_some] at hkept
  refine ⟨call, hcall, hrequest'.trans hrequest, ?_⟩
  exact over_of_deadline (hv.run hrest) hquiet hcall (by rw [hrequest', hentered']) hkept hlate

/-! ### Taking turns -/

/-- **Exchanges take turns.** After any run in which no exchange is handed over, one response at
most is awaited. In every run an exchange queues its frame only when it is its turn, and whoever had
his turn before is over then. An exchange with a time limit is over when the limit is and nobody has
a reason to take a turn, whatever it has waited for, and one that is over does not wait any more.
One that never has its turn queues nothing, so that all frames that the link is given are those of
others. Whatever ends an exchange leaves the session and everybody else as they are, unless the
owner has let go of the session and that was the last call to need it. -/
theorem exchanges_take_turns {settings : Settings} (h₀ : ofSettings settings = .ok s₀)
    (hrun : s₀.run? actions = some t) :
    ((∀ command, .call (.initiate command) ∉ actions) → t.pending ≤ 1) ∧
    (∀ (before after : List Action) (action : Action) (u : Session) (i : Nat) (o : Outgoing)
      (call : Call), actions = before ++ action :: after → s₀.run? before = some u →
      (i, o) ∈ u.entries action → t.calls[i]? = some call →
      call.request.exclusive?.isSome = true →
      u.holder? action = some i ∧ ∀ j ∈ s₀.holders before, j ≠ i →
        ∃ call' : Call, u.calls[j]? = some call' ∧ call'.stage.isOver = true) ∧
    ((∀ j, .caller j ∉ t.ready) → ∀ (before after : List Action) (request : Request) (u : Session)
      (limit : Nat), actions = before ++ .call request :: after → s₀.run? before = some u →
      request.limit? settings.commandTimeout = some limit → u.now + limit ≤ t.now →
      ∃ call : Call, t.calls[u.calls.length]? = some call ∧ call.request = request ∧
        call.stage.isOver = true) ∧
    (∀ (i w : Nat) (call : Call), (i, w) ∈ s₀.roster actions → t.calls[i]? = some call →
      call.stage.isOver = true → w ∉ t.outstanding.waiters.map (·.id)) ∧
    (∀ (i : Nat) (call : Call), t.calls[i]? = some call →
      call.request.exclusive?.isSome = true → i ∉ s₀.holders actions →
      (∀ o, (i, o) ∉ s₀.ledger actions) ∧
        ∀ o ∈ (s₀.passed actions).map (·.1), ∃ j, j ≠ i ∧ (j, o) ∈ s₀.ledger actions) ∧
    (∀ (action : Action) (v : Session) (i : Nat) (call call' : Call),
      t.step? action = some v → t.calls[i]? = some call → v.calls[i]? = some call' →
      call.request.exclusive?.isSome = true → call.stage.isOver = false →
      call'.stage.isOver = true → Spares i t v ∨ v.takenDown = true ∧ v.IsUnneeded) := by
  have hinit : Reachable s₀ := .refl h₀
  have ht : t.Reachable := hinit.run hrun
  refine ⟨?_, ?_, ?_, ?_, ?_, ?_⟩
  · exact fun hserial => (Sound.of_reachable ht).pending_le_one (serial_of_run? h₀ hrun hserial)
  · rintro before after action u i o call rfl hbefore hmem hcall hexclusive
    obtain ⟨v, hstep, hrest⟩ := run?_cons_eq_some.1 (run?_of_append hrun hbefore)
    have hlater : Later v t := .of_run? hrest
    refine ⟨holder?_of_mem_entries (hinit.run hbefore) hstep hmem hlater hcall hexclusive, ?_⟩
    intro j hj hij
    obtain ⟨first, action', mid, x, y, rfl, hfirst, -, hholder⟩ := exists_of_mem_gather hj
    exact over_of_holder? (hinit.run hfirst) (Option.mem_toList.1 hholder)
      (run?_of_append hbefore hfirst) hstep hmem hlater hcall hexclusive hij
  · rintro hquiet before after request u limit rfl hbefore hlimit hlate
    obtain ⟨v, hstep, hrest⟩ := run?_cons_eq_some.1 (run?_of_append hrun hbefore)
    refine over_of_limit (hinit.run hbefore) hstep hrest hquiet ?_ hlate
    rw [settings_eq_of_run? hbefore, eq_of_ofSettings h₀]
    exact hlimit
  · exact fun i w call hmem hcall hover => not_mem_waiters_of_over h₀ hrun hmem hcall hover
  · intro i call hcall hexclusive hnever
    have hnone : ∀ o, (i, o) ∉ s₀.ledger actions := fun o hmem =>
      hnever (mem_holders_of_mem_ledger hinit hrun hmem hcall hexclusive)
    refine ⟨hnone, fun o ho => ?_⟩
    obtain ⟨lost, hflows⟩ := exists_flows h₀ hrun
    have hmem : o ∈ (s₀.ledger actions).map (·.2) := by
      rw [hflows.frames, List.append_assoc]
      exact List.mem_append_left _ ho
    obtain ⟨⟨j, o'⟩, he, rfl⟩ := List.mem_map.1 hmem
    exact ⟨j, fun hji => hnone o' (hji ▸ he), he⟩
  · intro action v i call call' hstep hcall hcall' hexclusive hgoing hover
    refine spares_of_over ht hstep hcall ?_ hgoing hcall' hover
    intro hshutdown
    rw [hshutdown] at hexclusive
    cases hexclusive

/-- Three exchanges: the first runs out of time while it waits for the response, the third while it
stands in line behind the second. -/
def threeInLine : List Action :=
  [.call (.exchange (signal 3) (some 5)), .call (.exchange (signal 7) none), .write (.ok ()),
    .call (.exchange (signal 9) (some 6)), .pass 6, .turn 0, .turn 1, .turn 2, .write (.ok ()),
    .turn 1]

theorem exchanges_take_turns_three : ∃ s₀ t, ofSettings {} = .ok s₀ ∧
    s₀.run? threeInLine = some t ∧ t.stage? 0 = some (.ended 6 (.error .timeout)) ∧
    t.stage? 2 = some (.ended 6 (.error .timeout)) ∧ t.pending ≤ 1 ∧
    (∃ call : Call, t.calls[2]? = some call ∧ call.stage.isOver = true) ∧
    ∀ o, (2, o) ∉ s₀.ledger threeInLine := by
  have h₀ : ofSettings {} = .ok _ := rfl
  have hturns : ∀ {s₀ t u : Session} {call : Call}, ofSettings {} = .ok s₀ →
      s₀.run? threeInLine = some t → t.ready = [.pump] → s₀.run? (threeInLine.take 3) = some u →
      u.now + 6 ≤ t.now → u.calls.length = 2 → t.calls[2]? = some call →
      call.request.exclusive?.isSome = true → 2 ∉ s₀.holders threeInLine →
      t.pending ≤ 1 ∧ (∃ call : Call, t.calls[2]? = some call ∧ call.stage.isOver = true) ∧
        ∀ o, (2, o) ∉ s₀.ledger threeInLine := by
    intro s₀ t u call h₀ hrun hready hbefore hlate hlength hcall hexclusive hnever
    obtain ⟨hone, -, hlimit, -, hsilent, -⟩ := exchanges_take_turns h₀ hrun
    have hquiet : ∀ j, .caller j ∉ t.ready := by simp [hready]
    obtain ⟨call', hcall', -, hover⟩ := hlimit hquiet (threeInLine.take 3) (threeInLine.drop 4)
      (.exchange (signal 9) (some 6)) u 6 rfl hbefore rfl hlate
    rw [hlength] at hcall'
    exact ⟨hone (by simp [threeInLine]), ⟨call', hcall', hover⟩,
      (hsilent 2 call hcall hexclusive hnever).1⟩
  refine ⟨_, _, h₀, (Option.some_get (by decide +kernel)).symm, by decide +kernel,
    by decide +kernel, ?_⟩
  exact hturns h₀ (Option.some_get _).symm (by decide +kernel)
    (Option.some_get (by decide +kernel)).symm (by decide +kernel) (by decide +kernel)
    (Option.some_get (by decide +kernel)).symm (by decide +kernel) (by decide +kernel)

end Session

end BleHost
