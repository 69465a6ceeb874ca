import BleHost.Proofs.Session.Standing

/-!
# Who comes first

If callers get their slots in the order in which they came (`AdmitsInOrder`), then frames are queued
and written in that order as well: of two calls whose responses are awaited, the one that is ahead
has the older waiter (`Ranked`). The waiters, the callers at the queue and the frames in it are
three lists, which change at different times; this is what keeps them in step.
-/

namespace BleHost

namespace Session

variable {i a b : Nat} {s t : Session} {v w k k' : Nat} {r : Option (Except Error Unit)}
  {actions : List Action} {p : Session × Transfer}

/-- Nobody has a frame in the queue while somebody who came before him waits for a slot. -/
def AdmitsInOrder (s : Session) : Prop :=
  ∀ call ∈ s.calls, ∀ call' ∈ s.calls, call.stage.place ∈ s.outbound.tickets.map .frame →
    call'.stage.place = .slot → ∀ v ∈ call.stage.waiter?, ∀ w ∈ call'.stage.waiter?, v < w

instance (s : Session) : Decidable s.AdmitsInOrder :=
  inferInstanceAs (Decidable (∀ call ∈ s.calls, ∀ call' ∈ s.calls, _))

/-- Whoever is ahead on the way to the module has the older waiter. -/
structure Ranked (s : Session) : Prop where
  queued : ∀ a b v w k k', s.Stands a v none → s.Stands b w none → s.Sends a k → s.Sends b k' →
    k < k' → v < w
  dealt : ∀ a b v w outcome, s.Stands a v (some outcome) → s.Stands b w none → v < w

/-- A call that waits with a ticket has its frame in the queue as long as it has not been dealt
with. -/
theorem Sound.exists_queued (h : s.Sound) (hst : s.Stands a v none) (hsends : s.Sends a k) :
    ∃ o ∈ s.outbound.queued, o.ticket = k := by
  rcases h.unwritten_cases hst with ⟨call, hcall, hslot⟩ | ⟨o, ho, hsends'⟩
  · rw [(sends_iff hcall).1 hsends] at hslot
    cases hslot
  · exact ⟨o, ho, hsends'.eq hsends⟩

theorem admitsInOrder_iff (hs : s.Sound) :
    s.AdmitsInOrder ↔ ∀ a b v w k, s.Stands a v none → s.Sends a k → s.Stands b w none →
      (∀ k', ¬ s.Sends b k') → v < w := by
  constructor
  · intro h a b v w k hst hsends hst' hfree
    obtain ⟨o, ho, rfl⟩ := hs.exists_queued hst hsends
    obtain ⟨call, hcall, hticket⟩ := hsends
    obtain ⟨call', hcall', hslot⟩ | ⟨o', ho', hsends'⟩ := hs.unwritten_cases hst'
    · refine h call (List.mem_of_getElem? hcall) call' (List.mem_of_getElem? hcall') ?_ hslot v
        ((stands_iff hcall).1 hst).1 w ((stands_iff hcall').1 hst').1
      rw [hticket]
      exact List.mem_map_of_mem (List.mem_map_of_mem ho)
    · exact absurd hsends' (hfree _)
  · intro h call hmem call' hmem' hplace hslot v hv w hw
    obtain ⟨a, hcall⟩ := List.mem_iff_getElem?.1 hmem
    obtain ⟨b, hcall'⟩ := List.mem_iff_getElem?.1 hmem'
    obtain ⟨k, hk, hticket⟩ := List.mem_map.1 hplace
    refine h a b v w k ⟨call, hcall, hv, ?_⟩ ⟨call, hcall, hticket.symm⟩
      ⟨call', hcall', hw, written?_of_slot hslot⟩ ?_
    · exact hs.tickets.written?_of_queued hticket.symm hk
    · intro k' hsends
      rw [(sends_iff hcall').1 hsends] at hslot
      cases hslot

/-! ### What callers do -/

/-- The call has got its slot, and is past that. -/
def IsAdmitted (s : Session) (i : Nat) : Prop :=
  ∃ call : Call, s.calls[i]? = some call ∧ call.stage.place ≠ .slot ∧ call.stage ≠ .inLine

/-- A deed brings in nobody before those who were there. -/
theorem Turnover.stands_or_new (h : Turnover i s t) (hst : t.Stands a v r) :
    s.Stands a v r ∨ a = i ∧ v = s.outstanding.lastId + 1 ∧ r = none ∧ ∀ k, ¬ s.Sends i k := by
  cases h with
  | same hstands hwaits => exact .inl ((hstands a v r).1 hst)
  | joins expects hnew hfree hstands hwaits =>
    rcases (hstands a v r).1 hst with hst | ⟨rfl, rfl, rfl⟩
    · exact .inl hst
    · exact .inr ⟨rfl, rfl, rfl, hfree⟩
  | leaves w' r' hleaving hstands hwaits => exact .inl ((hstands a v r).1 hst).1

theorem Ranked.deed (h : s.Ranked) (hs : s.Sound) (hdeed : Deed i s t)
    (hreceipts : t.receipts = s.receipts) (horder : s.AdmitsInOrder ∨ s.IsAdmitted i) :
    t.Ranked := by
  have hturn := hdeed.turnover hs hreceipts
  constructor
  · intro a b v w k k' hst hst' hsends hsends' hlt
    -- the first of the two had his ticket before
    have hbefore : s.Sends a k := by
      rcases hdeed.sends_cases hsends hst with hsends | ⟨-, rfl⟩
      · exact hsends
      · rcases hdeed.sends_cases hsends' hst' with hsends' | ⟨-, rfl⟩
        · have hle := hs.ticket_le hsends'
          omega
        · omega
    have hst₀ : s.Stands a v none := by
      rcases hturn.stands_or_new hst with hst | ⟨rfl, -, -, hfree⟩
      · exact hst
      · exact absurd hbefore (hfree k)
    rcases hturn.stands_or_new hst' with hst₀' | ⟨-, rfl, -⟩
    · rcases hdeed.sends_cases hsends' hst' with hbefore' | ⟨rfl, rfl⟩
      · exact h.queued a b v w k k' hst₀ hst₀' hbefore hbefore' hlt
      · -- the second has just got his slot
        have hfree : ∀ k', ¬ s.Sends b k' := by
          intro k'' hsends''
          have hticket := (hdeed.sends hsends'' hst₀' hst').eq hsends'
          have hle := hs.ticket_le hsends''
          omega
        rcases horder with horder | ⟨call, hcall, hslot, -⟩
        · exact (admitsInOrder_iff hs).1 horder a b v w k hst₀ hbefore hst₀' hfree
        · rcases hs.unwritten_cases hst₀' with ⟨call', hcall', hslot'⟩ | ⟨o, -, hsends''⟩
          · obtain rfl := Option.some.inj (hcall.symm.trans hcall')
            exact absurd hslot' hslot
          · exact absurd hsends'' (hfree _)
    · exact Nat.lt_succ_of_le (hs.le_lastId hst₀)
  · intro a b v w outcome hst hst'
    rcases hturn.stands_or_new hst with hst₀ | ⟨-, -, hr, -⟩
    · rcases hturn.stands_or_new hst' with hst₀' | ⟨-, rfl, -⟩
      · exact h.dealt a b v w outcome hst₀ hst₀'
      · exact Nat.lt_succ_of_le (hs.le_lastId hst₀)
    · cases hr

/-- A caller is let in once at most in a row of deeds, so that the order of the callers before that
is that of the beginning. -/
theorem Deed.admits (hdeed : Deed i s t) (hs : s.Sound) (ht : t.Sound)
    (hreceipts : t.receipts = s.receipts) (horder : s.AdmitsInOrder ∨ s.IsAdmitted i) :
    t.AdmitsInOrder ∨ t.IsAdmitted i := by
  rcases horder with horder | ⟨call, hcall, hslot, hline⟩
  · rcases hdeed.queued_cases with hqueued | ⟨bytes, call, -, hcall, hplace⟩
    · refine .inl ((admitsInOrder_iff ht).2 ?_)
      intro a b v w k hst hsends hst' hfree
      have hturn := hdeed.turnover hs hreceipts
      have hbefore : s.Sends a k := by
        rcases hdeed.sends_cases hsends hst with hsends' | ⟨-, rfl⟩
        · exact hsends'
        · obtain ⟨o, ho, hticket⟩ := ht.exists_queued hst hsends
          rw [hqueued] at ho
          have hle := hs.queue.ticket_le o.ticket (List.mem_map_of_mem ho)
          omega
      have hst₀ : s.Stands a v none := by
        rcases hturn.stands_or_new hst with hst | ⟨rfl, -, -, hfree⟩
        · exact hst
        · exact absurd hbefore (hfree k)
      rcases hturn.stands_or_new hst' with hst₀' | ⟨-, rfl, -⟩
      · exact (admitsInOrder_iff hs).1 horder a b v w k hst₀ hbefore hst₀' fun k' hsends' =>
          hfree k' (hdeed.sends hsends' hst₀' hst')
      · exact Nat.lt_succ_of_le (hs.le_lastId hst₀)
    · refine .inr ⟨call, hcall, ?_, ?_⟩
      · rw [hplace]
        exact nofun
      · intro hline
        rw [hline] at hplace
        cases hplace
  · refine .inr ?_
    have hsame : ∀ {call' : Call}, s.calls[i]? = some call' → call' = call := fun hcall' =>
      Option.some.inj (hcall'.symm.trans hcall)
    cases hdeed with
    | idle hcalls hwaits hqueued hline' => exact ⟨call, hcalls ▸ hcall, hslot, hline⟩
    | enter request deadline hi hcalls hwaits hqueued hline' =>
      rw [hi, List.getElem?_eq_none (Nat.le_refl _)] at hcall
      cases hcall
    | claim hcall' hstage hcommand hturn hwaiter hcalls hwaits hoffers hline' =>
      exact absurd (hsame hcall' ▸ hstage) hline
    | plain hcall' hstage hnone hsends hwaiter hcalls hwaits hoffers hline' =>
      exact absurd (hsame hcall' ▸ hstage) hline
    | redeem hcall' hstage hwaiter hplace hcalls hwaits hqueued hline' =>
      rw [← hsame hcall', hstage] at hslot
      exact absurd rfl hslot
    | shift hcall' hrequest hwaiter hwritten hplace hleft hpast hcalls hwaits hqueued hline' =>
      exact ⟨_, by rw [hcalls, getElem?_modify_self hcall'], hpast⟩
    | @leave call' stage hcall' hgoing hover hcalls hwaits hqueued hline' =>
      refine ⟨call'.atStage stage, by rw [hcalls, getElem?_modify_self hcall'], ?_, ?_⟩
      · rw [Call.stage_atStage, Stage.place_of_isOver hover]
        exact nofun
      · rintro rfl
        cases hover

theorem Ranked.deeds (h : s.Ranked) (hdeeds : Deeds i s t)
    (horder : s.AdmitsInOrder ∨ s.IsAdmitted i) : t.Ranked := by
  induction hdeeds with
  | refl s => exact h
  | step hs hdeed hreceipts hreplies hlater ht hrest ih =>
    exact ih (h.deed hs hdeed hreceipts horder) (hdeed.admits hs ht hreceipts horder)

/-! ### Frames that are sent and received -/

theorem Sound.ticket_lt (h : s.Sound) {o o' : Outgoing} {frames : List Outgoing}
    (hqueued : s.outbound.queued = o :: frames) (ho' : o' ∈ frames) : o.ticket < o'.ticket := by
  have hsorted : (s.receipts.map (·.1) ++ s.outbound.tickets).Pairwise (· < ·) := by
    rw [h.tickets.numbered]
    exact List.pairwise_lt_range'
  have htickets := (List.pairwise_append.1 hsorted).2.1
  rw [Outbound.tickets, hqueued, List.map_cons, List.pairwise_cons] at htickets
  exact htickets.1 o'.ticket (List.mem_map_of_mem ho')

theorem Ranked.wrote {o : Outgoing} {outcome : Except Error Unit} (h : s.Ranked) (hs : s.Sound)
    (horder : s.AdmitsInOrder) (hwrote : Wrote o outcome s t) : t.Ranked := by
  have hmem : o ∈ s.outbound.queued := hwrote.queued ▸ List.mem_cons_self
  -- whoever has not been dealt with was not before, and is not the one whose frame it was
  have hnone : ∀ {a v}, t.Stands a v none → s.Stands a v none ∧ ¬ s.Sends a o.ticket := by
    intro a v hst
    rcases (hwrote.stands_iff hs).1 hst with hst | ⟨-, -, hr⟩
    · exact hst
    · cases hr
  constructor
  · intro a b v w k k' hst hst' hsends hsends'
    exact h.queued a b v w k k' (hnone hst).1 (hnone hst').1 (hwrote.sends_iff.1 hsends)
      (hwrote.sends_iff.1 hsends')
  · intro a b v w outcome' hst hst'
    obtain ⟨hst', hother⟩ := hnone hst'
    rcases (hwrote.stands_iff hs).1 hst with ⟨hst, -⟩ | ⟨hkeeps, hsends, -⟩
    · exact h.dealt a b v w outcome' hst hst'
    · obtain ⟨r, hst⟩ := hkeeps.stands
      obtain rfl := hs.unwritten hmem hsends hst
      by_cases hfree : ∀ k', ¬ s.Sends b k'
      · exact (admitsInOrder_iff hs).1 horder a b v w o.ticket hst hsends hst' hfree
      · obtain ⟨k', hsends'⟩ := not_forall_not.1 hfree
        obtain ⟨o', ho', rfl⟩ := hs.exists_queued hst' hsends'
        rw [hwrote.queued] at ho'
        rcases List.mem_cons.1 ho' with rfl | ho'
        · exact absurd hsends' hother
        · exact h.queued a b v w o.ticket o'.ticket hst hst' hsends hsends'
            (hs.ticket_lt hwrote.queued ho')

theorem Ranked.route (h : s.Ranked) (f : Frame) : (s.route f).Ranked := by
  constructor
  · intro a b v w k k' hst hst' hsends hsends'
    rw [stands_route] at hst hst'
    rw [sends_route] at hsends hsends'
    exact h.queued a b v w k k' hst hst' hsends hsends'
  · intro a b v w outcome hst hst'
    rw [stands_route] at hst hst'
    exact h.dealt a b v w outcome hst hst'

/-! ### Along a run -/

theorem Ranked.ofSettings {settings : Settings} (h : ofSettings settings = .ok s) : s.Ranked := by
  obtain rfl := eq_of_ofSettings h
  have hnobody : ∀ {a v r}, ¬ Stands
      { settings, outbound := .ofCapacity settings.outboundCapacity,
        hub := .ofCapacity settings.eventCapacity } a v r := by
    rintro a v r ⟨call, hcall, -⟩
    simp at hcall
  exact ⟨fun _ _ _ _ _ _ hst => absurd hst hnobody, fun _ _ _ _ _ hst => absurd hst hnobody⟩

/-- What a run goes through is on its trail. -/
theorem mem_trail {before : List Action} (hmem : before ∈ actions.inits)
    (hrun : s.run? before = some t) : t ∈ s.trail actions := by
  obtain ⟨rest, rfl⟩ := (List.mem_inits _ _).1 hmem
  clear hmem
  induction before generalizing s with
  | nil =>
    obtain rfl : s = t := by simpa using hrun
    exact mem_trail_self s rest
  | cons action before ih =>
    obtain ⟨u, hstep, hrest⟩ := run?_cons_eq_some.1 hrun
    rw [List.cons_append, trail_cons hstep]
    exact List.mem_cons_of_mem _ (ih hrest)

/-- Whatever goes over the link, everybody is in his place at that moment. -/
theorem ranked_of_mem_log {settings : Settings} (h₀ : ofSettings settings = .ok s)
    (hrun : s.run? actions = some t) (horder : ∀ u ∈ s.trail actions, u.AdmitsInOrder)
    (hp : p ∈ s.log actions) : p.1.Ranked ∧ p.1.Sound := by
  have hall : ∃ u : Session, u.Ranked ∧ ∀ p ∈ s.log actions, p.1.Ranked ∧ p.1.Sound := by
    refine log_induction (P := fun past u => u.Ranked ∧ ∀ p ∈ past, p.1.Ranked ∧ p.1.Sound)
      (Q := fun _ u => u.AdmitsInOrder) h₀ hrun
      (fun before hbefore u hu => horder u (mem_trail hbefore hu)) ?_ ?_ ?_ ?_ ?_
    · exact ⟨.ofSettings h₀, fun _ hp => absurd hp List.not_mem_nil⟩
    · exact fun past u pump pumpState alarms h => ⟨⟨h.1.queued, h.1.dealt⟩, h.2⟩
    · exact fun past i u v hu hgoing hfair hfair' hdeeds h => ⟨h.1.deeds hdeeds (.inl hfair), h.2⟩
    · intro past o outcome u v hu hfair hwrote hv h
      refine ⟨h.1.wrote hu hfair hwrote, ?_⟩
      intro p hp
      rcases List.mem_append.1 hp with hp | hp
      · exact h.2 p hp
      · rw [List.mem_singleton.1 hp]
        exact ⟨h.1, hu⟩
    · intro past f u hu hgoing h
      refine ⟨h.1.route f, ?_⟩
      intro p hp
      rcases List.mem_append.1 hp with hp | hp
      · exact h.2 p hp
      · rw [List.mem_singleton.1 hp]
        exact ⟨h.1, hu⟩
  obtain ⟨u, -, hall⟩ := hall
  exact hall p hp

end Session

end BleHost
