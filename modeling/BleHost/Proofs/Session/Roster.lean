import BleHost.Proofs.Session.Departure
import Mathlib.Data.List.Sort

/-!
# The roster of waiters

Every waiter that is made during a run is entered in a roster, with the place of the call that it is
made for (`Session.roster`). The numbers in it go up from one (`roster_map_snd`), and every call
that keeps a waiter is in it with that waiter (`mem_roster_of_keeps`). Whoever waits is known from
the roster: the waiters that are still kept and have not been told anything, in the order of the
roster (`waiters_eq_roster`). So no waiter outlives its call, and none is taken from another one
(`awaited_in_order`).
-/

namespace BleHost

namespace Session

variable {i w : Nat} {s s₀ t u v : Session} {call : Call} {action : Action} {actions : List Action}

/-- The waiters that an action makes, each with the place of the call that it is made for. -/
def enrolled (s : Session) (action : Action) : List (Nat × Nat) :=
  match s.step? action with
  | some t =>
    (List.range' (s.outstanding.lastId + 1) (t.outstanding.lastId - s.outstanding.lastId)).map
      fun w => (s.actor action, w)
  | none => []

/-- The waiters that are made during a run, in order. -/
def roster (s : Session) (actions : List Action) : List (Nat × Nat) := gather enrolled s actions

theorem enrolled_eq (hstep : s.step? action = some t) :
    s.enrolled action =
      (List.range' (s.outstanding.lastId + 1) (t.outstanding.lastId - s.outstanding.lastId)).map
        fun w => (s.actor action, w) := by
  rw [enrolled, hstep]

/-- Numbers are given out one after another. -/
theorem roster_map_snd (hrun : s.run? actions = some t) :
    (s.roster actions).map (·.2) =
      List.range' (s.outstanding.lastId + 1) (t.outstanding.lastId - s.outstanding.lastId) := by
  induction actions generalizing s with
  | nil =>
    obtain rfl : s = t := by simpa using hrun
    simp [roster, gather]
  | cons action actions ih =>
    obtain ⟨u, hstep, hrest⟩ := run?_cons_eq_some.1 hrun
    have hfirst := (Later.of_step? hstep).lastId_le
    have hlast := (Later.of_run? hrest).lastId_le
    have hstart : u.outstanding.lastId + 1 =
        s.outstanding.lastId + 1 + (u.outstanding.lastId - s.outstanding.lastId) := by omega
    have hlength : u.outstanding.lastId - s.outstanding.lastId +
        (t.outstanding.lastId - u.outstanding.lastId) =
          t.outstanding.lastId - s.outstanding.lastId := by omega
    rw [roster, gather_cons hstep, List.map_append, ← roster, ih hrest, enrolled_eq hstep,
      List.map_map, hstart, ← hlength, ← List.range'_append_1]
    simp [Function.comp_def]

/-- A call that keeps a waiter has kept it before, or has just got it. -/
theorem mem_enrolled_of_keeps (hs : s.Reachable) (hstep : s.step? action = some t)
    (hkeeps : t.Keeps i w) : s.Keeps i w ∨ (i, w) ∈ s.enrolled action := by
  rcases (Later.of_step? hstep).kept i w hkeeps with hold | hnew
  · exact .inl hold
  · have hle : w ≤ t.outstanding.lastId := by
      obtain ⟨r, hstands⟩ := hkeeps.stands
      exact (Sound.of_reachable (hs.step hstep)).le_lastId hstands
    by_cases hi : s.actor action = i
    · refine .inr ?_
      rw [enrolled_eq hstep, List.mem_map]
      exact ⟨w, by rw [List.mem_range'_1]; omega, by rw [hi]⟩
    · -- everybody else's call is as it was
      obtain ⟨call, hcall, hw⟩ := hkeeps
      rw [(moves_of_step? hstep).getElem?_of_ne hi] at hcall
      exact .inl ⟨call, hcall, hw⟩

/-- Whoever keeps a waiter is in the roster with it. -/
theorem mem_roster_of_keeps (hs : s.Reachable) (hrun : s.run? actions = some t)
    (hkeeps : t.Keeps i w) : s.Keeps i w ∨ (i, w) ∈ s.roster actions := by
  induction actions generalizing s with
  | nil =>
    obtain rfl : s = t := by simpa using hrun
    exact .inl hkeeps
  | cons action actions ih =>
    obtain ⟨u, hstep, hrest⟩ := run?_cons_eq_some.1 hrun
    rw [roster, gather_cons hstep, List.mem_append, ← roster]
    rcases ih (hs.step hstep) hrest with hkeeps' | hmem
    · rcases mem_enrolled_of_keeps hs hstep hkeeps' with hkeeps'' | hmem
      · exact .inl hkeeps''
      · exact .inr (.inl hmem)
    · exact .inr (.inr hmem)

/-- Those wait who are kept and have not been told anything. -/
theorem mem_waiters_iff (hs : s.Sound) :
    w ∈ s.outstanding.waiters.map (·.id) ↔ (∃ i, s.Keeps i w) ∧ s.reply? w = none := by
  rw [List.mem_map, reply?_eq_none]
  constructor
  · rintro ⟨v, hv, rfl⟩
    obtain ⟨i, r, hstands⟩ := hs.exists_stands hv
    exact ⟨⟨i, hstands.keeps⟩, fun reply hmem => hs.waiters.untold v hv _ hmem rfl⟩
  · rintro ⟨⟨i, hkeeps⟩, huntold⟩
    obtain ⟨command?, hget⟩ := WaitersSound.getElem?_holdings_of_keeps hkeeps
    obtain ⟨command, -, hwaits | ⟨reply, htold⟩⟩ := hs.waiters.kept i command? w hget
    · exact ⟨_, hwaits, rfl⟩
    · exact absurd htold (huntold reply)

/-- Whether a waiter in the roster is still kept and has not been told anything. -/
def isAwaited (s : Session) (entry : Nat × Nat) : Bool :=
  s.holds entry.1 entry.2 && (s.reply? entry.2).isNone

/-- Whoever waits is known from the roster. -/
theorem waiters_eq_roster {settings : Settings} (h₀ : ofSettings settings = .ok s₀)
    (hrun : s₀.run? actions = some t) :
    t.outstanding.waiters.map (·.id) =
      ((s₀.roster actions).filter t.isAwaited).map (·.2) := by
  have hinit : Reachable s₀ := .refl h₀
  have hs : t.Sound := .of_reachable (hinit.run hrun)
  have hnobody : ∀ i w, ¬ s₀.Keeps i w := by
    rintro i w ⟨call, hcall, -⟩
    rw [eq_of_ofSettings h₀] at hcall
    simp at hcall
  have hsorted : (t.outstanding.waiters.map (·.id)).Pairwise (· < ·) :=
    List.pairwise_map.2 hs.waiters.sorted
  have hroster : (((s₀.roster actions).filter t.isAwaited).map (·.2)).Pairwise (· < ·) := by
    have hall : ((s₀.roster actions).map (·.2)).Pairwise (· < ·) := by
      rw [roster_map_snd hrun]
      exact List.pairwise_lt_range'
    exact hall.sublist (List.filter_sublist.map _)
  refine hsorted.eq_of_mem_iff hroster fun w => ?_
  simp only [mem_waiters_iff hs, List.mem_map, List.mem_filter, isAwaited, Bool.and_eq_true,
    holds_iff, Option.isNone_iff_eq_none]
  constructor
  · rintro ⟨⟨i, hkeeps⟩, huntold⟩
    have hmem := (mem_roster_of_keeps hinit hrun hkeeps).resolve_left (hnobody i w)
    exact ⟨(i, w), ⟨hmem, hkeeps, huntold⟩, rfl⟩
  · rintro ⟨⟨i, w⟩, ⟨-, hkeeps, huntold⟩, rfl⟩
    exact ⟨⟨i, hkeeps⟩, huntold⟩

/-! ### What waiters are told -/

theorem reply?_route (hs : s.WaitersSound) {f : Frame} {m : Message} (h : Takes (s, f) w m) :
    (s.route f).reply? w = some (.ok m) := by
  obtain ⟨ready, heq⟩ := route_of_takes h
  have huntold : s.reply? w = none := reply?_eq_none.2 fun reply hmem =>
    hs.untold _ (Outstanding.oldest?_eq_some h.2).2.1 _ hmem rfl
  rw [reply?, Option.map_eq_none_iff] at huntold
  simp [heq, reply?, List.find?_append, huntold]

/-- What a frame has brought about stays so. -/
theorem Grown.of_mem_moves {hs : List (Session × Frame)} (hmoves : Moves i hs s t)
    {p : Session × Frame} (hp : p ∈ hs) : Grown (p.1.route p.2) t := by
  induction hmoves with
  | refl s => cases hp
  | move hmove hrest ih => exact ih hp
  | route hrun hrest ih =>
    rcases List.mem_cons.1 hp with rfl | hp
    · exact .of_moves hrest
    · exact ih hp

theorem Grown.of_mem_history (hrun : s.run? actions = some t) {p : Session × Frame}
    (hp : p ∈ s.history actions) : Grown (p.1.route p.2) t := by
  induction actions generalizing s with
  | nil => cases hp
  | cons action actions ih =>
    obtain ⟨u, hstep, hrest⟩ := run?_cons_eq_some.1 hrun
    rw [history_cons hstep] at hp
    rcases List.mem_append.1 hp with hp | hp
    · exact (Grown.of_mem_moves (moves_of_step? hstep) hp).trans (.of_run? hrest)
    · exact ih hrest hp

/-- A waiter has been answered by the frame that it took. -/
theorem reply?_eq_ok {settings : Settings} (h₀ : ofSettings settings = .ok s₀)
    (hrun : s₀.run? actions = some t) {m : Message} :
    t.reply? w = some (.ok m) ↔ ∃ p ∈ s₀.history actions, Takes p w m := by
  have htraced := (Traced.ofSettings h₀).run hrun
  rw [List.nil_append] at htraced
  constructor
  · intro h
    exact htraced.answered w m (mem_of_lookup h)
  · rintro ⟨p, hp, htakes⟩
    exact Grown.lookup_of_prefix (Grown.of_mem_history hrun hp).replies
      (reply?_route (htraced.sounds p hp) htakes)

theorem Move.closed_of_refused (hmove : Move i s t)
    (h : ∀ (w : Nat) (e : Error), (w, .error e) ∈ s.replies → s.outstanding.closed = true)
    (w : Nat) (e : Error) (hmem : (w, .error e) ∈ t.replies) : t.outstanding.closed = true := by
  cases hmove with
  | queue hcall hstage hturn hlive hclaims hopen hroom hready =>
    exact hclaims.closed.trans (h w e hmem)
  | block hcall hstage hturn hlive hclaims hopen hroom => exact hclaims.closed.trans (h w e hmem)
  | refuse bytes hcall hstage hturn hlive hclaims hclosed =>
    exact hclaims.closed.trans (h w e hmem)
  | finish hcall hgoing hover hready => exact (closed_withoutWaiter ..).trans (h w e hmem)
  | hush hstopped hready hwho => rfl
  | conclude hpump hrun hstops hready => rfl
  | _ => exact h w e hmem

/-- Waiters are refused only when no new ones are taken any more. -/
theorem closed_of_refused (h : s.Reachable) {e : Error} (hreply : s.reply? w = some (.error e)) :
    s.outstanding.closed = true := by
  refine h.induction
    (P := fun s => ∀ (w : Nat) (e : Error),
      (w, (.error e : Except Error Message)) ∈ s.replies → s.outstanding.closed = true)
    ?_ (fun _ _ h => h) ?_ w e (mem_of_lookup hreply)
  · intro settings s hset w e hmem
    rw [eq_of_ofSettings hset] at hmem
    cases hmem
  · intro i hs s t h hmoves
    induction hmoves with
    | refl s => exact h
    | move hmove hrest ih => exact ih (hmove.closed_of_refused h)
    | @route hs s u frame hrun hrest ih =>
      refine ih fun w e hmem => ?_
      obtain ⟨outstanding, news, hub, ready, heq, hclosed, hok, -⟩ := route_eq s frame
      rw [heq] at hmem ⊢
      rcases List.mem_append.1 hmem with hmem | hmem
      · exact hclosed.trans (h w e hmem)
      · obtain ⟨m, he⟩ := hok _ hmem
        cases he

/-! ### Nobody is forgotten -/

/-- **Whoever waits is awaited.** After any run, those who wait are those in the roster who are
still kept by their calls and have been neither answered nor refused, in the order in which they
were made. Every call's waiter is in the roster, whose numbers go up from one and are never used
again; a waiter has been answered if one of the frames that were handed out was told to it, and
refused only if the outstanding exchanges have been closed. Whatever ends a call takes no waiter
away but the one that the call keeps, unless the session itself goes with its last call. So once
every call for a response is over, nobody waits. -/
theorem awaited_in_order {settings : Settings} (h₀ : ofSettings settings = .ok s₀)
    (hrun : s₀.run? actions = some t) :
    t.outstanding.waiters.map (·.id) = ((s₀.roster actions).filter t.isAwaited).map (·.2) ∧
    (s₀.roster actions).map (·.2) = List.range' 1 t.outstanding.lastId ∧
    (∀ i w, t.Keeps i w → (i, w) ∈ s₀.roster actions) ∧
    (∀ w m, t.reply? w = some (.ok m) ↔ ∃ p ∈ s₀.history actions, Takes p w m) ∧
    (∀ w e, t.reply? w = some (.error e) → t.outstanding.closed = true) ∧
    (∀ (action : Action) (v : Session) (i : Nat) (call call' : Call),
      t.step? action = some v → t.calls[i]? = some call → v.calls[i]? = some call' →
      call.request.awaited?.isSome = true → call.stage.isOver = false →
      call'.stage.isOver = true →
      v.outstanding.waiters = t.waitersBut i ∨ v.takenDown = true ∧ v.IsUnneeded) ∧
    ((∀ call ∈ t.calls, call.request.awaited?.isSome = true → call.stage.isOver = true) →
      t.pending = 0) := by
  have hinit : Reachable s₀ := .refl h₀
  have ht : t.Reachable := hinit.run hrun
  have hnone : s₀.outstanding.lastId = 0 := by rw [eq_of_ofSettings h₀]
  refine ⟨waiters_eq_roster h₀ hrun, ?_, ?_, fun w m => reply?_eq_ok h₀ hrun,
    fun w e => closed_of_refused ht, ?_, ?_⟩
  · rw [roster_map_snd hrun, hnone]
    rfl
  · intro i w hkeeps
    refine (mem_roster_of_keeps hinit hrun hkeeps).resolve_left ?_
    rintro ⟨call, hcall, -⟩
    rw [eq_of_ofSettings h₀] at hcall
    simp at hcall
  · intro action v i call call' hstep hcall hcall' hawaited hgoing hover
    have hsends : call.request ≠ .shutdown := by
      intro hshutdown
      rw [hshutdown] at hawaited
      cases hawaited
    exact (spares_of_over ht hstep hcall hsends hgoing hcall' hover).imp_left
      fun hspares => hspares.waiters_eq hcall' hover
  · intro hall
    have hsound : t.WaitersSound := .of_reachable ht
    suffices hnobody : t.outstanding.waiters = [] by rw [pending, Outstanding.size, hnobody]; rfl
    refine List.eq_nil_iff_forall_not_mem.2 fun w hw => ?_
    obtain ⟨⟨i, hkeeps⟩, -⟩ := (mem_waiters_iff (.of_reachable ht)).1 (List.mem_map_of_mem hw)
    obtain ⟨call, hcall, hwaiter⟩ := hkeeps
    obtain ⟨command, hcommand, -⟩ := hsound.kept i call.request.awaited? w.id
      (by rw [WaitersSound.getElem?_holdings hcall, Call.holding, hwaiter])
    have hover := hall call (List.mem_of_getElem? hcall) (by rw [hcommand]; rfl)
    rw [Stage.waiter?_eq_none_of_isOver hover] at hwaiter
    cases hwaiter

/-- Three hellos, of which the second is given up and the first is answered. -/
def oneOfThreeLeft : List Action :=
  [.call (.initiate (.bare 0x00 0x01)), .call (.initiate (.bare 0x00 0x01)),
    .call (.initiate (.bare 0x00 0x01)), .abandon 1, .write (.ok ()), .write (.ok ()),
    .write (.ok ()), .read (.received [0x00, 0x00, 0x00, 0x01])]

theorem awaited_in_order_one_left : ∃ s₀ t, ofSettings {} = .ok s₀ ∧
    s₀.run? oneOfThreeLeft = some t ∧ s₀.roster oneOfThreeLeft = [(0, 1), (1, 2), (2, 3)] ∧
    t.outstanding.waiters.map (·.id) = [3] := by
  have h₀ : ofSettings {} = .ok _ := rfl
  refine ⟨_, _, h₀, (Option.some_get (by decide +kernel)).symm, by decide +kernel, ?_⟩
  rw [(awaited_in_order h₀ (Option.some_get (by decide +kernel)).symm).1]
  decide +kernel

end Session

end BleHost
