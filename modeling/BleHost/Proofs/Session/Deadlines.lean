import BleHost.Proofs.Session.Afterwards
import BleHost.Proofs.Session.Departure

/-!
# Time limits

The time limit of an exchange runs from the moment it comes in, and its caller's alarm is set from
then on (`OnTimeAt`). When the time is over he has a reason to take a turn, and with that turn the
exchange ends. So no exchange is still going on after its time limit when no caller has a reason to
take a turn (`over_of_deadline`), however long it has stood in line or waited for a slot.
-/

namespace BleHost

namespace Session

variable {i j : Nat} {s t u : Session} {call call' : Call} {hs : List (Session × Frame)}
  {action : Action} {actions : List Action} {request : Request}

/-- The alarm of an exchange is set, and its time is not over unless its caller has a reason to take
a turn. -/
def OnTimeAt (s : Session) (j : Nat) : Prop :=
  ∀ call : Call, s.calls[j]? = some call → call.request.exclusive?.isSome = true →
    .caller j ∈ s.alarms ∧ ∀ deadline, call.stage.isTimed = true → call.deadline = some deadline →
      s.now < deadline ∨ .caller j ∈ s.ready

/-! ### What others do -/

theorem Move.alarms_subset (hmove : Move i s t) : s.alarms ⊆ t.alarms := by
  cases hmove with
  | rouse alarms h halarms => exact halarms
  | _ => exact List.Subset.refl _

theorem Moves.alarms_subset (hmoves : Moves i hs s t) : s.alarms ⊆ t.alarms := by
  induction hmoves with
  | refl s => exact List.Subset.refl _
  | move hmove hrest ih => exact List.Subset.trans hmove.alarms_subset ih
  | @route hs s u frame hrun hrest ih =>
    obtain ⟨outstanding, news, hub, ready, heq, -⟩ := route_eq s frame
    rwa [heq] at ih

/-- A reason to take a turn stays until the caller takes it. -/
theorem Move.caller_mem_ready (hmove : Move i s t) (hij : i ≠ j) (hmem : .caller j ∈ s.ready) :
    .caller j ∈ t.ready := by
  cases hmove with
  | rouse alarms h halarms => exact h hmem
  | begin hparty =>
    refine (List.mem_erase_of_ne ?_).2 hmem
    rcases hparty with rfl | rfl
    · exact nofun
    · exact fun heq => hij (Party.caller.inj heq).symm
  | queue hcall hstage hturn hlive hclaims hopen hroom hready => exact hready hmem
  | retry hcall hstage hopen hgranted hready => exact hready hmem
  | finish hcall hgoing hover hready => exact hready.subset hmem
  | hush hstopped hready hwho => exact hready.subset hmem
  | cutOff hdown hsilent hneed hready hopen => exact hready.subset hmem
  | wrote outcome hpump hrun hqueued hready => exact hready.subset hmem
  | conclude hpump hrun hstops hready => exact hready.subset hmem
  | breakOff hpump hrun hb hready => exact hready.subset hmem
  | tick hnow hready hdue => exact hready hmem
  | _ => exact hmem

theorem OnTimeAt.move (h : s.OnTimeAt j) (hij : i ≠ j) (hmove : Move i s t) : t.OnTimeAt j := by
  intro call hcall hexclusive
  rw [hmove.getElem?_of_ne hij] at hcall
  obtain ⟨halarm, htime⟩ := h call hcall hexclusive
  refine ⟨hmove.alarms_subset halarm, fun deadline htimed hdeadline => ?_⟩
  have hready : .caller j ∈ s.ready → .caller j ∈ t.ready := hmove.caller_mem_ready hij
  have hbefore := htime deadline htimed hdeadline
  cases hmove with
  | tick hnow hsub hdue =>
    rcases hbefore with hbefore | hmem
    · rename_i now ready
      refine (Nat.lt_or_ge now deadline).imp_right fun hge => hdue _ halarm ?_
      -- the moment of the alarm has come
      simp [isDue, alarm?, hcall, htimed, hdeadline, hbefore, hge]
    · exact .inr (hready hmem)
  | _ => exact hbefore.imp_right hready

theorem OnTimeAt.moves (h : s.OnTimeAt j) (hij : i ≠ j) (hmoves : Moves i hs s t) :
    t.OnTimeAt j := by
  induction hmoves with
  | refl s => exact h
  | move hmove hrest ih => exact ih (h.move hij hmove)
  | @route hs s u frame hrun hrest ih =>
    refine ih fun call hcall hexclusive => ?_
    obtain ⟨outstanding, news, hub, ready, heq, -, -, hready⟩ := route_eq s frame
    rw [heq] at hcall ⊢
    obtain ⟨halarm, htime⟩ := h call hcall hexclusive
    exact ⟨halarm, fun deadline htimed hdeadline =>
      (htime deadline htimed hdeadline).imp_right fun hmem => hready.subset hmem⟩

/-! ### What the caller does -/

/-- After a turn its time is not over. -/
theorem now_lt_of_turn (s : Session) (i : Nat) (hcall : (s.turn i).calls[i]? = some call)
    (htimed : call.stage.isTimed = true) {deadline : Nat}
    (hdeadline : call.deadline = some deadline) : (s.turn i).now < deadline := by
  unfold turn at hcall ⊢
  split at hcall
  · rename_i hnone
    rw [hnone] at hcall
    cases hcall
  · rename_i before hbefore
    by_cases hlate : (s.advance i before).isOverdue i = true
    · -- it has ended
      simp only [if_pos hlate, calls_finish] at hcall
      obtain ⟨call', -, rfl⟩ : ∃ call', (s.advance i before).calls[i]? = some call' ∧
          call'.atStage (.ended (s.advance i before).now (.error .timeout)) = call := by
        simpa using hcall
      cases htimed
    · simp only [if_neg hlate] at hcall ⊢
      simpa [isOverdue, hcall, htimed, hdeadline] using hlate

/-- A call goes on from where it came in. -/
theorem moves_entered_call (s : Session) (request : Request) :
    Moves s.calls.length [] (s.entered request) (s.call request) := by
  by_cases hexclusive : request.exclusive?.isSome = true
  · rw [call_of_exclusive hexclusive]
    exact moves_turn _ _
  · have hfree : request.exclusive? = none := by simpa using hexclusive
    rw [call_of_free hfree]
    exact moves_begin (getElem?_entered s request) rfl hfree

theorem onTimeAt_call (s : Session) (request : Request) :
    (s.call request).OnTimeAt s.calls.length := by
  have hmoves := moves_entered_call s request
  intro call hcall hexclusive
  have hexclusive' : request.exclusive?.isSome = true := by
    rwa [(Later.of_moves hmoves).request_eq (getElem?_entered s request) hcall] at hexclusive
  refine ⟨hmoves.alarms_subset (List.mem_append_right _ (List.mem_singleton_self _)), ?_⟩
  intro deadline htimed hdeadline
  rw [call_of_exclusive hexclusive'] at hcall ⊢
  exact .inl (now_lt_of_turn _ _ hcall htimed hdeadline)

/-- What a caller does with a call that he has made. -/
theorem OnTimeAt.own (h : s.OnTimeAt i) (hstep : s.step? action = some t) (hown : s.IsOwn i action)
    (hcall : s.calls[i]? = some call) : t.OnTimeAt i := by
  have hmoves := moves_of_isOwn hown hstep
  have halarm : ∀ call', t.calls[i]? = some call' → call'.request.exclusive?.isSome = true →
      .caller i ∈ t.alarms := by
    intro call' hcall' hexclusive
    rw [(Later.of_moves hmoves).request_eq hcall hcall'] at hexclusive
    exact hmoves.alarms_subset (h call hcall hexclusive).1
  cases action with
  | call request =>
    have hlt := (List.getElem?_eq_some_iff.1 hcall).1
    exact absurd hown (Nat.ne_of_gt hlt)
  | turn index =>
    obtain rfl : index = i := hown
    obtain rfl := Option.some.inj hstep
    exact fun call' hcall' hexclusive => ⟨halarm call' hcall' hexclusive,
      fun deadline htimed hdeadline => .inl (now_lt_of_turn _ _ hcall' htimed hdeadline)⟩
  | await index limit =>
    obtain rfl : index = i := hown
    obtain rfl := Option.some.inj hstep
    intro call' hcall' hexclusive
    refine ⟨halarm call' hcall' hexclusive, ?_⟩
    unfold await at hcall' ⊢
    split at hcall'
    · exact fun deadline htimed hdeadline => .inl (now_lt_of_turn _ _ hcall' htimed hdeadline)
    · exact (h call' hcall' hexclusive).2
  | abandon index =>
    obtain rfl : index = i := hown
    obtain rfl := Option.some.inj hstep
    intro call' hcall' hexclusive
    refine ⟨halarm call' hcall' hexclusive, ?_⟩
    unfold abandon at hcall' ⊢
    split at hcall'
    · exact (h call' hcall' hexclusive).2
    · exact (h call' hcall' hexclusive).2
    · exact (h call' hcall' hexclusive).2
    · rw [calls_takeDownIfUnused, setStage_eq, List.getElem?_modify_eq] at hcall'
      obtain ⟨call'', -, rfl⟩ := Option.map_eq_some_iff.1 hcall'
      exact fun deadline htimed => nomatch htimed
  | _ => exact absurd hown id

theorem onTimeAt_of_step? (h : s.OnTimeAt j) (hstep : s.step? action = some t) : t.OnTimeAt j := by
  by_cases hown : s.IsOwn j action
  · rcases hcall : s.calls[j]? with _ | call
    · rcases own_of_nobody hstep hown hcall with ⟨request, rfl, rfl⟩ | ⟨ready, rfl⟩
      · simp only [step?] at hstep
        split at hstep
        · cases hstep
        · rw [← Option.some.inj hstep]
          exact onTimeAt_call s request
      · intro call' hcall'
        cases hcall.symm.trans hcall'
    · exact h.own hstep hown hcall
  · obtain ⟨i, hij, hactor⟩ := exists_isActor_ne hown
    exact OnTimeAt.moves (s := { s with pump := s.pumpAfter action }) h hij
      (moves_of_isActor hactor hstep)

/-- Every exchange is on time. -/
theorem onTimeAt_of_reachable (h : s.Reachable) (j : Nat) : s.OnTimeAt j := by
  obtain ⟨settings, s₀, actions, hset, hrun⟩ := h
  refine run?_induction (P := fun s => s.OnTimeAt j) (fun _ _ _ h => onTimeAt_of_step? h) hrun ?_
  intro call hcall
  rw [eq_of_ofSettings hset] at hcall
  simp at hcall

/-! ### When the time is over -/

theorem Move.deadline_eq (hmove : Move i s t) (hfit : s.CallsFit) (hcall : s.calls[j]? = some call)
    (hexclusive : call.request.exclusive?.isSome = true) (hcall' : t.calls[j]? = some call') :
    call'.deadline = call.deadline := by
  by_cases hij : i = j
  · subst hij
    have hsame : ∀ {before : Call} {stage : Stage}, s.calls[i]? = some before →
        (s.calls.modify i (·.atStage stage))[i]? = some call' →
        call'.deadline = call.deadline := by
      intro before stage hbefore hafter
      rw [getElem?_modify_self hcall] at hafter
      rw [← Option.some.inj hafter]
      rfl
    cases hmove with
    | enter request deadline hi =>
      have hlt := (List.getElem?_eq_some_iff.1 hcall).1
      omega
    | queue hbefore hstage hturn hlive hclaims hopen hroom hready => exact hsame hbefore hcall'
    | block hbefore hstage hturn hlive hclaims hopen hroom => exact hsame hbefore hcall'
    | refuse bytes hbefore hstage hturn hlive hclaims hclosed => exact hsame hbefore hcall'
    | retry hbefore hstage hopen hgranted hready => exact hsame hbefore hcall'
    | expect hbefore hstage hreceipt hreply => exact hsame hbefore hcall'
    | @await before ticket waiter deadline hbefore hstage =>
      -- only an exchange that does not stand in line can be handed over
      have hinitiate := hfit i before hbefore
      rw [Call.IsFit, hstage, Option.some.inj (hbefore.symm.trans hcall)] at hinitiate
      obtain ⟨command, hrequest⟩ := hinitiate
      rw [hrequest] at hexclusive
      cases hexclusive
    | waitForPump hbefore hstage hrequest hrun => exact hsame hbefore hcall'
    | finish hbefore hgoing hover hready => exact hsame hbefore hcall'
    | _ => rw [Option.some.inj (hcall.symm.trans hcall')]
  · rw [hmove.getElem?_of_ne hij] at hcall'
    rw [Option.some.inj (hcall.symm.trans hcall')]

theorem Moves.deadline_eq (hmoves : Moves i hs s t) (hfit : s.CallsFit)
    (hcall : s.calls[j]? = some call) (hexclusive : call.request.exclusive?.isSome = true)
    (hcall' : t.calls[j]? = some call') : call'.deadline = call.deadline := by
  induction hmoves generalizing call with
  | refl s => rw [Option.some.inj (hcall.symm.trans hcall')]
  | move hmove hrest ih =>
    obtain ⟨mid, hmid, hrequest, -⟩ := (Later.of_move hmove).call j call hcall
    rw [ih (hfit.move hmove) hmid (by rw [hrequest, hexclusive]) hcall',
      hmove.deadline_eq hfit hcall hexclusive hmid]
  | @route hs s u frame hrun hrest ih =>
    exact ih (hfit.moves (.route (i := i) hrun (.refl _))) (by rwa [calls_route]) hexclusive hcall'

/-- The time limit of an exchange never changes. -/
theorem deadline_eq_of_run? (hs : s.Reachable) (hrun : s.run? actions = some t)
    (hcall : s.calls[j]? = some call) (hexclusive : call.request.exclusive?.isSome = true)
    (hcall' : t.calls[j]? = some call') : call'.deadline = call.deadline := by
  induction actions generalizing s call with
  | nil =>
    obtain rfl : s = t := by simpa using hrun
    rw [Option.some.inj (hcall.symm.trans hcall')]
  | cons action actions ih =>
    obtain ⟨u, hstep, hrest⟩ := run?_cons_eq_some.1 hrun
    obtain ⟨mid, hmid, hrequest, -⟩ := (Later.of_step? hstep).call j call hcall
    have hfit : s.CallsFit := .of_reachable hs
    rw [ih (hs.step hstep) hrest hmid (by rw [hrequest, hexclusive])]
    exact Moves.deadline_eq (s := { s with pump := s.pumpAfter action }) (moves_of_step? hstep) hfit
      hcall hexclusive hmid

/-- An exchange that comes in is to be over when its time limit is. -/
theorem exists_call_of_step? (hs : s.Reachable) (hstep : s.step? (.call request) = some t) :
    ∃ call : Call, t.calls[s.calls.length]? = some call ∧ call.request = request ∧
      (request.exclusive?.isSome = true →
        call.deadline = (request.limit? s.settings.commandTimeout).map (s.now + ·)) := by
  simp only [step?] at hstep
  split at hstep
  · cases hstep
  rename_i hkept
  have hkept : s.released = false := by simpa using hkept
  obtain rfl := Option.some.inj hstep
  have hmoves := moves_entered_call s request
  obtain ⟨call, hcall, hrequest, -⟩ := (Later.of_moves hmoves).call _ _ (getElem?_entered s request)
  refine ⟨call, hcall, hrequest, fun hexclusive => ?_⟩
  have hfit : (s.entered request).CallsFit :=
    (CallsFit.of_reachable hs).moves (moves_entered request _ hkept rfl rfl (.refl _))
  exact hmoves.deadline_eq hfit (getElem?_entered s request) hexclusive hcall

/-- An exchange whose time is over is over, unless its caller has a reason to take a turn. -/
theorem over_of_deadline (hs : s.Reachable) (hquiet : ∀ j, .caller j ∉ s.ready)
    (hcall : s.calls[j]? = some call) (hexclusive : call.request.exclusive?.isSome = true)
    {deadline : Nat} (hdeadline : call.deadline = some deadline) (hlate : deadline ≤ s.now) :
    call.stage.isOver = true := by
  by_contra hgoing
  have htimed : call.stage.isTimed = true := by
    have hheld := isHeld_of_exclusive (CallsFit.of_reachable hs) hcall hexclusive
    unfold isHeld at hheld
    rw [stage?_eq hcall] at hheld
    cases hstage : call.stage with
    | held ticket waiter =>
      rw [hstage] at hheld
      cases hheld
    | _ =>
      rw [hstage] at hgoing
      first | rfl | exact absurd rfl hgoing
  obtain ⟨-, htime⟩ := onTimeAt_of_reachable hs j call hcall hexclusive
  rcases htime deadline htimed hdeadline with hlt | hmem
  · omega
  · exact hquiet j hmem

end Session

end BleHost
