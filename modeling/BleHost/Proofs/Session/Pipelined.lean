import BleHost.Proofs.Session.Pairing

/-!
# Many commands at once

Commands may be sent one after another without waiting for their responses, the same command as
often as one likes. What comes back says what it is a response to, but not to which of several such
commands; that is known from the order alone (`answered_in_order`).
-/

namespace BleHost

namespace Session

variable {i : Nat} {s t : Session} {actions : List Action} {outcome : Except Error Unit}
  {p : Session × Transfer}

/-- What came of a frame that was sent is what the link said. -/
theorem write_mem_of_sent {u : Session} {o : Outgoing}
    (h : (u, .sent o outcome) ∈ s.log actions) : .write outcome ∈ actions := by
  induction actions generalizing s with
  | nil => exact absurd h List.not_mem_nil
  | cons action actions ih =>
    rcases hstep : s.step? action with _ | t
    · rw [log, hstep] at h
      exact absurd h List.not_mem_nil
    · rw [log_cons hstep] at h
      rcases List.mem_append.1 h with h | h
      · rw [(write_of_sent_mem h).2]
        exact List.mem_cons_self
      · exact List.mem_cons_of_mem _ (ih h)

/-- If the link has taken all frames, nobody is refused. -/
theorem spurned_eq_nil_of_receipts (hall : ∀ r ∈ s.receipts, r.2 = .ok ()) : s.spurned = [] := by
  have hreceipt : ∀ ticket e, s.receipt? ticket ≠ some (.error e) := by
    intro ticket e hreceipt
    obtain ⟨r, hfind, he⟩ := Option.map_eq_some_iff.1 hreceipt
    rw [hall r (List.mem_of_find?_eq_some hfind)] at he
    cases he
  refine List.eq_nil_iff_forall_not_mem.2 fun x hx => ?_
  obtain ⟨-, i, e, call, hcall, hw, hr⟩ := mem_spurned.1 hx
  unfold written? at hr
  split at hr
  · exact hreceipt _ e hr
  · exact hreceipt _ e hr
  · cases hr
  · cases hr

/-- If no write fails, nobody is refused while the pump is at work. -/
theorem spurned_eq_nil {settings : Settings} (h₀ : ofSettings settings = .ok s)
    (hrun : s.run? actions = some t) (hwrites : ∀ e, .write (.error e) ∉ actions)
    (hp : p ∈ s.log actions) : p.1.spurned = [] := by
  have hall : ∃ u : Session, (∀ v o e, (v, .sent o (.error e)) ∉ s.log actions) →
      (∀ r ∈ u.receipts, r.2 = .ok ()) ∧ ∀ q ∈ s.log actions, q.1.spurned = [] := by
    have hfirst : ∀ {past : List (Session × Transfer)} {q},
        (∀ v o e, (v, .sent o (.error e)) ∉ past ++ [q]) →
        ∀ v o e, (v, .sent o (.error e)) ∉ past :=
      fun h v o e hmem => h v o e (List.mem_append_left _ hmem)
    have hlast : ∀ {past : List (Session × Transfer)} {u : Session} {transfer},
        (∀ q ∈ past, q.1.spurned = []) → (∀ r ∈ u.receipts, r.2 = .ok ()) →
        ∀ q ∈ past ++ [(u, transfer)], q.1.spurned = [] := by
      intro past u transfer hpast hreceipts q hq
      rcases List.mem_append.1 hq with hq | hq
      · exact hpast q hq
      · rw [List.mem_singleton.1 hq]
        exact spurned_eq_nil_of_receipts hreceipts
    refine log_induction
      (P := fun past u => (∀ v o e, (v, .sent o (.error e)) ∉ past) →
        (∀ r ∈ u.receipts, r.2 = .ok ()) ∧ ∀ q ∈ past, q.1.spurned = [])
      (Q := fun _ _ => True) h₀ hrun (fun _ _ _ _ => trivial) ?_ ?_ ?_ ?_ ?_
    · intro hpast
      obtain rfl := eq_of_ofSettings h₀
      exact ⟨fun _ hr => absurd hr List.not_mem_nil, fun _ hq => absurd hq List.not_mem_nil⟩
    · exact fun past u pump pumpState alarms h hpast => h hpast
    · intro past i u v hu hgoing hQ hQ' hdeeds h hpast
      rw [hdeeds.receipts_eq]
      exact h hpast
    · intro past o outcome u v hu hQ hwrote hv h hpast
      obtain ⟨hreceipts, hspurned⟩ := h (hfirst hpast)
      refine ⟨?_, hlast hspurned hreceipts⟩
      intro r hr
      rw [hwrote.receipts] at hr
      rcases List.mem_append.1 hr with hr | hr
      · exact hreceipts r hr
      · rw [List.mem_singleton.1 hr]
        cases outcome with
        | ok success => rfl
        | error e => exact absurd (by simp) (hpast u o e)
    · intro past f u hu hgoing h hpast
      obtain ⟨hreceipts, hspurned⟩ := h (hfirst hpast)
      refine ⟨?_, hlast hspurned hreceipts⟩
      obtain ⟨outstanding, news, hub, ready, heq, -⟩ := route_eq u f
      rw [heq]
      exact hreceipts
  obtain ⟨u, hu⟩ := hall
  exact (hu fun v o e hmem => hwrites e (write_mem_of_sent hmem)).2 p hp

/-- **Pipelining.** Callers send commands only, whatever they are and however many at once, and get
their slots in the order in which they came; every write succeeds, nobody gives up on an exchange
before it has been answered, and the module answers in the order of the frames that were written.
Then every answer completes the call whose frame it answers and no other one, and every call for a
command that has ended well ended with the answer to its own frame. -/
theorem answered_in_order {settings : Settings} {s₀ : Session}
    (h₀ : ofSettings settings = .ok s₀) (hrun : s₀.run? actions = some s)
    (hcalls : ∀ call ∈ s.calls, call.request.awaited?.isSome = true ∨ call.request = .shutdown)
    (hadmits : ∀ u ∈ s₀.trail actions, u.AdmitsInOrder)
    (hwrites : ∀ e, .write (.error e) ∉ actions)
    (hpatient : ∀ u ∈ s₀.trail actions, u.IsRunning → u.gone = [])
    (horderly : Orderly s.inUse (s₀.log actions)) :
    (∀ (k : Nat) (a : Session × Frame), (answers s.inUse (s₀.log actions))[k]? = some a →
      ∃ (q : Session × Outgoing) (i : Nat) (m : Message),
        (questions (s₀.log actions))[k]? = some q ∧ q.2.identity? = some a.2.id ∧
        q.1.Sends i q.2.ticket ∧ Completes a i m ∧ ∀ j m', Completes a j m' → j = i) ∧
    ∀ (i : Nat) (call : Call) (c : Command) (time : Nat) (outcome : Outcome),
      s.calls[i]? = some call → call.request.awaited? = some c →
      call.stage = .ended time (.ok outcome) →
      ∃ (k : Nat) (q : Session × Outgoing) (a : Session × Frame) (m : Message),
        (questions (s₀.log actions))[k]? = some q ∧
        (answers s.inUse (s₀.log actions))[k]? = some a ∧ q.1.Sends i q.2.ticket ∧
        Completes a i m ∧ call.request.conclude m = .ok outcome := by
  obtain ⟨u, hpaired⟩ := paired h₀ hrun hcalls hadmits
    (by
      intro before hbefore u hu hgoing w hw
      rw [hpatient u (mem_trail hbefore hu) hgoing] at hw
      exact absurd hw List.not_mem_nil)
    (by
      intro p hp f hf y hy
      rw [spurned_eq_nil h₀ hrun hwrites hp] at hy
      exact absurd hy List.not_mem_nil)
    horderly
  constructor
  · intro k a ha
    obtain ⟨q, hq, hidentity⟩ := horderly.exists_question ha
    obtain ⟨i, m, hsends, hcompletes⟩ := hpaired.pairs k q a hq ha
    have hsound := (ranked_of_mem_log h₀ hrun hadmits
      (mem_answers.1 (List.mem_of_getElem? ha)).1).2
    exact ⟨q, i, m, hq, hidentity, hsends, hcompletes, fun j m' h =>
      h.eq_of_completes hcompletes hsound.waiters⟩
  · intro i call c time outcome hcall hcommand hstage
    exact hpaired.exists_own h₀ hrun horderly hcall hcommand hstage

/-- A command whose response says which connection it is about. -/
def signal (connection : UInt8) : Command := (Instruction.connectionGetRssi connection).fixed

/-- One slot in the outbound queue, and three commands under way at once, two of them the same. The
module answers two of them at once, with a frame between that nobody knows, then the third. -/
def threeAtOnce : List Action :=
  [.call (.initiate (signal 3)), .call (.initiate (.bare 0x00 0x01)), .write (.ok ()), .turn 1,
    .call (.exchange (signal 7) none), .write (.ok ()), .turn 2, .write (.ok ()),
    .read (.received [0x00, 0x02, 0x03, 0x01, 0x03, 0x83, 0x00, 0x00, 0x7f, 0x7f]),
    .read (.received [0x00, 0x00, 0x00, 0x01, 0x00, 0x02, 0x03, 0x01, 0x07, 0x87]), .turn 2,
    .await 1 none, .await 0 none]

theorem answered_in_order_three_at_once : ∃ s₀ s, ofSettings { outboundCapacity := 1 } = .ok s₀ ∧
    s₀.run? threeAtOnce = some s ∧
    s.stage? 2 = some (.ended 0 (.ok (.message ⟨.connectionGetRssi, 7, -121, ()⟩))) ∧
    ∃ (k : Nat) (q : Session × Outgoing) (a : Session × Frame) (m : Message),
      (questions (s₀.log threeAtOnce))[k]? = some q ∧
      (answers s.inUse (s₀.log threeAtOnce))[k]? = some a ∧ q.1.Sends 2 q.2.ticket ∧
      Completes a 2 m := by
  have hanswer : ∀ {s₀ s : Session}, ofSettings { outboundCapacity := 1 } = .ok s₀ →
      s₀.run? threeAtOnce = some s →
      (∀ call ∈ s.calls, call.request.awaited?.isSome = true ∨ call.request = .shutdown) →
      (∀ u ∈ s₀.trail threeAtOnce, u.AdmitsInOrder) →
      (∀ u ∈ s₀.trail threeAtOnce, u.IsRunning → u.gone = []) →
      Orderly s.inUse (s₀.log threeAtOnce) →
      s.stage? 2 = some (.ended 0 (.ok (.message ⟨.connectionGetRssi, 7, -121, ()⟩))) →
      ((s.calls[2]?).bind (·.request.awaited?)).isSome = true →
      ∃ (k : Nat) (q : Session × Outgoing) (a : Session × Frame) (m : Message),
        (questions (s₀.log threeAtOnce))[k]? = some q ∧
        (answers s.inUse (s₀.log threeAtOnce))[k]? = some a ∧ q.1.Sends 2 q.2.ticket ∧
        Completes a 2 m := by
    intro s₀ s h₀ hrun hcalls hadmits hpatient horderly hstage hcommand
    obtain ⟨call, hcall, hstage⟩ := Option.map_eq_some_iff.1 hstage
    rw [hcall] at hcommand
    obtain ⟨c, hc⟩ := Option.isSome_iff_exists.1 hcommand
    have hwrites : ∀ e, Action.write (.error e) ∉ threeAtOnce := by simp [threeAtOnce]
    obtain ⟨k, q, a, m, hq, ha, hsends, hcompletes, -⟩ :=
      (answered_in_order h₀ hrun hcalls hadmits hwrites hpatient horderly).2 2 call c 0 _ hcall hc
        hstage
    exact ⟨k, q, a, m, hq, ha, hsends, hcompletes⟩
  have h₀ : ofSettings { outboundCapacity := 1 } = .ok _ := rfl
  refine ⟨_, _, h₀, (Option.some_get (by decide +kernel)).symm, by decide +kernel, ?_⟩
  exact hanswer h₀ (Option.some_get _).symm (by decide +kernel) (by decide +kernel)
    (by decide +kernel) (by decide +kernel) (by decide +kernel) (by decide +kernel)

end Session

end BleHost
