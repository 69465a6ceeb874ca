import BleHost.Proofs.Session.Waiters

/-!
# Which frame completes which call

A frame that is handed out completes a call if it tells the waiter that the call keeps
(`Completes`). Over a run, `Traced` ties what waiters were told and what calls have ended with to
the frames that were handed out; from it follows that calls only succeed with the response to their
own command, and that frames and calls are completed at most once (`responses_correlate`).
-/

namespace BleHost

namespace Session

variable {i j : Nat} {s t : Session} {f : Frame} {m : Message} {w : Nat} {call : Call}
  {hs hs' : List (Session × Frame)} {p q : Session × Frame}

/-- A frame that is handed out is told to a waiter. -/
def Takes (p : Session × Frame) (w : Nat) (m : Message) : Prop :=
  p.1.settings.catalogue.decode p.2 = .ok m ∧ p.1.outstanding.oldest? p.2.id = some ⟨w, p.2.id⟩

/-- A frame that is handed out completes a call: the waiter that the call keeps is told it. -/
def Completes (p : Session × Frame) (i : Nat) (m : Message) : Prop :=
  ∃ w, p.1.Keeps i w ∧ (p.1.route p.2).replies = p.1.replies ++ [(w, .ok m)]

/-! ### Handing out one frame -/

theorem route_of_takes (h : Takes (s, f) w m) :
    ∃ ready, s.route f =
      { s with
        outstanding := { s.outstanding.remove w with
          offered := s.outstanding.offered ++ [(f.id, m)] }
        replies := s.replies ++ [(w, .ok m)]
        ready } := by
  obtain ⟨hd, ho⟩ := h
  have hevent := (Outstanding.oldest?_eq_some ho).1
  obtain ⟨ready, heq, -⟩ := tell_eq
    { s with
      outstanding := { s.outstanding.remove w with
        offered := s.outstanding.offered ++ [(f.id, m)] } } w (.ok m)
  refine ⟨ready, ?_⟩
  unfold route
  dsimp only at hd ho hevent ⊢
  rw [hd]
  dsimp only
  rw [hevent, Outstanding.offer_of_some ho]
  exact heq

/-- A frame that is told to nobody changes no waiter. -/
theorem route_of_not_takes (h : ∀ w m, ¬ Takes (s, f) w m) :
    (s.route f).replies = s.replies ∧ (s.route f).outstanding.waiters = s.outstanding.waiters ∧
      (s.route f).outstanding.lastId = s.outstanding.lastId := by
  unfold route
  rcases hd : s.settings.catalogue.decode f with e | m
  · exact ⟨rfl, rfl, rfl⟩
  · dsimp only
    split
    · exact ⟨rfl, rfl, rfl⟩
    · rcases ho : s.outstanding.oldest? f.id with _ | ⟨w, expects⟩
      · rw [Outstanding.offer_of_none ho]
        exact ⟨rfl, rfl, rfl⟩
      · obtain ⟨-, -, rfl⟩ := Outstanding.oldest?_eq_some ho
        exact absurd ⟨hd, ho⟩ (h w m)

theorem exists_takes_of_replies (h : (s.route f).replies ≠ s.replies) :
    ∃ w m, Takes (s, f) w m := by
  by_contra hnone
  exact h (route_of_not_takes fun w m htakes => hnone ⟨w, m, htakes⟩).1

/-- The reply of a frame that is told to somebody says to whom. -/
theorem takes_of_replies (h : (s.route f).replies = s.replies ++ [(w, .ok m)]) :
    Takes (s, f) w m := by
  have hne : (s.route f).replies ≠ s.replies := by
    rw [h]
    simp
  obtain ⟨w', m', htakes⟩ := exists_takes_of_replies hne
  obtain ⟨ready, heq⟩ := route_of_takes htakes
  rw [heq] at h
  have hlast := List.append_cancel_left h
  simp only [List.cons.injEq, Prod.mk.injEq, Except.ok.injEq, and_true] at hlast
  obtain ⟨rfl, rfl⟩ := hlast
  exact htakes

theorem completes_iff : Completes p i m ↔ ∃ w, p.1.Keeps i w ∧ Takes p w m := by
  constructor
  · rintro ⟨w, hkeeps, h⟩
    exact ⟨w, hkeeps, takes_of_replies h⟩
  · rintro ⟨w, hkeeps, h⟩
    obtain ⟨ready, heq⟩ := route_of_takes h
    exact ⟨w, hkeeps, by rw [heq]⟩

theorem Later.of_route (s : Session) (f : Frame) : Later s (s.route f) := by
  by_cases h : ∃ w m, Takes (s, f) w m
  · obtain ⟨w, m, h⟩ := h
    obtain ⟨ready, heq⟩ := route_of_takes h
    rw [heq]
    exact of_calls_eq rfl (Nat.le_refl _) (List.filter_sublist.subset)
  · obtain ⟨-, hwaits, hlast⟩ := route_of_not_takes fun w m htakes => h ⟨w, m, htakes⟩
    exact of_calls_eq (calls_route s f) (Nat.le_of_eq hlast.symm)
      (by rw [hwaits]; exact List.Subset.refl _)

/-! ### How calls end -/

/-- A call that has ended was over before, or has just ended for a reason. -/
theorem Move.ended (hmove : Move i s t) {time : Nat} {result : Except Error Outcome}
    (hcall : t.calls[j]? = some call) (hstage : call.stage = .ended time result) :
    s.calls[j]? = some call ∨ ∃ call₀, s.calls[j]? = some call₀ ∧
      call.request = call₀.request ∧ s.Ends call₀ result := by
  have hqueued : ∀ request ticket waiter,
      Stage.queued request ticket waiter ≠ .ended time result := by
    intro request ticket waiter he
    have hover := congrArg Stage.isOver he
    rw [Stage.isOver_queued] at hover
    cases hover
  cases hmove with
  | enter request deadline hi =>
    rcases getElem?_append_cases hcall with ⟨-, rfl⟩ | hcall
    · cases hstage
    · exact .inl hcall
  | queue hcall₀ hstage₀ hturn hlive hclaims hopen hroom hready =>
    rcases getElem?_modify_cases hcall₀ hcall with ⟨-, rfl⟩ | ⟨-, hcall⟩
    · exact absurd hstage (hqueued _ _ _)
    · exact .inl hcall
  | block hcall₀ hstage₀ hturn hlive hclaims hopen hroom =>
    rcases getElem?_modify_cases hcall₀ hcall with ⟨-, rfl⟩ | ⟨-, hcall⟩
    · cases hstage
    · exact .inl hcall
  | refuse bytes hcall₀ hstage₀ hturn hlive hclaims hclosed =>
    rcases getElem?_modify_cases hcall₀ hcall with ⟨-, rfl⟩ | ⟨-, hcall⟩
    · cases hstage
    · exact .inl hcall
  | retry hcall₀ hstage₀ hopen hgranted hready =>
    rcases getElem?_modify_cases hcall₀ hcall with ⟨-, rfl⟩ | ⟨-, hcall⟩
    · exact absurd hstage (hqueued _ _ _)
    · exact .inl hcall
  | expect hcall₀ hstage₀ hreceipt hreply =>
    rcases getElem?_modify_cases hcall₀ hcall with ⟨-, rfl⟩ | ⟨-, hcall⟩
    · cases hstage
    · exact .inl hcall
  | await hcall₀ hstage₀ =>
    rcases getElem?_modify_cases hcall₀ hcall with ⟨-, rfl⟩ | ⟨-, hcall⟩
    · cases hstage
    · exact .inl hcall
  | waitForPump hcall₀ hstage₀ hrequest hrun =>
    rcases getElem?_modify_cases hcall₀ hcall with ⟨-, rfl⟩ | ⟨-, hcall⟩
    · cases hstage
    · exact .inl hcall
  | finish hcall₀ hgoing hover hready =>
    rcases getElem?_modify_cases hcall₀ hcall with ⟨rfl, rfl⟩ | ⟨-, hcall⟩
    · rcases hover with rfl | ⟨result', rfl, hends⟩
      · cases hstage
      · obtain ⟨-, rfl⟩ := Stage.ended.inj hstage
        exact .inr ⟨_, hcall₀, rfl, hends⟩
    · exact .inl hcall
  | _ => exact .inl hcall

/-- What is looked up by its number is there under that number. -/
theorem mem_of_lookup {α : Type} {l : List (Nat × α)} {key : Nat} {a : α}
    (h : (l.find? (·.1 == key)).map (·.2) = some a) : (key, a) ∈ l := by
  obtain ⟨⟨key', a'⟩, hfind, rfl⟩ := Option.map_eq_some_iff.1 h
  have hkey := List.find?_some hfind
  obtain rfl : key' = key := by simpa using hkey
  exact List.mem_of_find?_eq_some hfind

/-- A call that awaits a response ends because its time is over, because the session is dead,
because its frame was refused, or with what it makes of what its waiter was told. -/
theorem Ends.awaited_cases {result : Except Error Outcome} {command : Command}
    (h : s.Ends call result) (hfit : call.IsFit) (hcommand : call.request.awaited? = some command) :
    result = .error .timeout ∨ result = .error .dead ∨
      (∃ ticket e, (ticket, .error e) ∈ s.receipts ∧ result = .error e) ∨
      ∃ w reply, call.stage.waiter? = some w ∧ (w, reply) ∈ s.replies ∧
        result = reply.bind call.request.conclude := by
  have hanswer : ∀ {w}, s.answer? call.request w = some result →
      ∃ reply, (w, reply) ∈ s.replies ∧ result = reply.bind call.request.conclude := by
    intro w hw
    obtain ⟨reply, hreply, heq⟩ := Option.map_eq_some_iff.1 hw
    exact ⟨reply, mem_of_lookup hreply, by rw [← heq]; cases reply <;> rfl⟩
  have hreport : ∀ {ticket w}, s.report? call.request ticket (some w) = some result →
      (∃ ticket e, (ticket, .error e) ∈ s.receipts ∧ result = .error e) ∨
        ∃ reply, (w, reply) ∈ s.replies ∧ result = reply.bind call.request.conclude := by
    intro ticket w hw
    unfold report? at hw
    split at hw
    · cases hw
    · rename_i e hreceipt
      exact .inl ⟨ticket, e, mem_of_lookup hreceipt, (Option.some.inj hw).symm⟩
    · exact .inr (hanswer hw)
  cases h with
  | settled h =>
    unfold outcome? at h
    unfold Call.IsFit at hfit
    split at h
    · split at h
      · exact .inr (.inl (Option.some.inj h).symm)
      · cases h
    · split at h
      · exact .inr (.inl (Option.some.inj h).symm)
      · cases h
    · rename_i ticket waiter hstage
      rw [hstage, hcommand] at hfit
      obtain ⟨w, rfl⟩ := Option.isSome_iff_exists.1 hfit
      refine .inr (.inr ((hreport h).imp_right ?_))
      rintro ⟨reply, hmem, hresult⟩
      exact ⟨w, reply, by rw [hstage]; rfl, hmem, hresult⟩
    · rename_i ticket w hstage
      refine .inr (.inr ((hreport h).imp_right ?_))
      rintro ⟨reply, hmem, hresult⟩
      exact ⟨w, reply, by rw [hstage]; rfl, hmem, hresult⟩
    · rename_i w hstage
      obtain ⟨reply, hmem, hresult⟩ := hanswer h
      exact .inr (.inr (.inr ⟨w, reply, by rw [hstage]; rfl, hmem, hresult⟩))
    · rename_i hstage
      rw [hstage] at hfit
      dsimp only at hfit
      rw [hfit] at hcommand
      cases hcommand
    · cases h
    · cases h
  | stopped hrequest hstage =>
    rw [hrequest] at hcommand
    cases hcommand
  | late h => exact .inl rfl

/-- A call that awaits a response only succeeds with what its waiter was told. -/
theorem Ends.exists_reply {outcome : Outcome} {command : Command} (h : s.Ends call (.ok outcome))
    (hfit : call.IsFit) (hcommand : call.request.awaited? = some command) :
    ∃ w m, call.stage.waiter? = some w ∧ (w, .ok m) ∈ s.replies ∧
      call.request.conclude m = .ok outcome := by
  rcases h.awaited_cases hfit hcommand with
    htimeout | hdead | ⟨ticket, e, -, hrefused⟩ | ⟨w, reply, hw, hmem, hresult⟩
  · cases htimeout
  · cases hdead
  · cases hrefused
  · cases reply with
    | error e => cases hresult
    | ok m => exact ⟨w, m, hw, hmem, hresult.symm⟩

/-! ### Along the frames that are handed out -/

section Along

variable {P : List (Session × Frame) → Session → Prop}

/-- What every move keeps, and every frame that is handed out, is kept by moves one after
another. -/
theorem Moves.history_induction (hmoves : Moves i hs' s t)
    (hmove : ∀ {i hs s t}, P hs s → Move i s t → P hs t)
    (hroute : ∀ {hs s} (f : Frame), P hs s → P (hs ++ [(s, f)]) (s.route f)) (h : P hs s) :
    P (hs ++ hs') t := by
  induction hmoves generalizing hs with
  | refl s =>
    rw [List.append_nil]
    exact h
  | move hfirst hrest ih => exact ih (hmove h hfirst)
  | @route hs' s u frame hrun hrest ih =>
    rw [List.append_cons]
    exact ih (hroute frame h)

/-- It is kept by a whole run, if what the pump notes for itself does not matter. -/
theorem run?_history_induction {actions : List Action} (hrun : s.run? actions = some t)
    (hmove : ∀ {i hs s t}, P hs s → Move i s t → P hs t)
    (hroute : ∀ {hs s} (f : Frame), P hs s → P (hs ++ [(s, f)]) (s.route f))
    (hpump : ∀ {hs s} (pump : Pump), P hs s → P hs { s with pump }) (h : P hs s) :
    P (hs ++ s.history actions) t := by
  induction actions generalizing s hs with
  | nil =>
    obtain rfl : s = t := by simpa using hrun
    rw [history, List.append_nil]
    exact h
  | cons action actions ih =>
    obtain ⟨u, hstep, hrun⟩ := run?_cons_eq_some.1 hrun
    rw [history_cons hstep, ← List.append_assoc]
    exact ih hrun ((moves_of_step? hstep).history_induction hmove hroute (hpump _ h))

end Along

/-! ### Traces -/

/-- A call that keeps the waiter a frame is told to is completed by that frame, also if it is looked
at later. -/
theorem Takes.completes (h : Takes p w m) (hsound : p.1.WaitersSound)
    (hlater : Later (p.1.route p.2) s) (hkeeps : s.Keeps i w) : Completes p i m := by
  refine completes_iff.2 ⟨w, ?_, h⟩
  have hle : w ≤ p.1.outstanding.lastId :=
    hsound.bound _ (Outstanding.oldest?_eq_some h.2).2.1
  rcases ((Later.of_route p.1 p.2).trans hlater).kept i w hkeeps with hkeeps | hlt
  · exact hkeeps
  · omega

/-- What is so when a frame completes a call. -/
theorem Completes.facts (h : Completes p i m) (hsound : p.1.WaitersSound) :
    ∃ w call c, p.1.calls[i]? = some call ∧ call.stage.waiter? = some w ∧
      call.request.awaited? = some c ∧ p.2.id = c.responseId ∧
      ⟨w, c.responseId⟩ ∈ p.1.outstanding.waiters ∧
      (∀ v ∈ p.1.outstanding.waiters, v.expects = c.responseId → w ≤ v.id) ∧
      p.1.settings.catalogue.decode p.2 = .ok m := by
  obtain ⟨w, ⟨call, hcall, hw⟩, hd, ho⟩ := completes_iff.1 h
  obtain ⟨-, hwaits, -⟩ := Outstanding.oldest?_eq_some ho
  have hholding : (p.1.calls.map Call.holding)[i]? = some (call.request.awaited?, some w) := by
    rw [WaitersSound.getElem?_holdings hcall, Call.holding, hw]
  obtain ⟨c, hc, hmem | ⟨reply, hmem⟩⟩ := hsound.kept i _ w hholding
  · have hid : p.2.id = c.responseId := congrArg Waiter.expects (hsound.eq_of_id_eq hwaits hmem rfl)
    refine ⟨w, call, c, hcall, hw, hc, hid, hmem, ?_, hd⟩
    intro v hv hexpects
    exact hsound.le_of_oldest? ho hv (hexpects.trans hid.symm)
  · exact absurd rfl (hsound.untold _ hwaits _ hmem)

theorem Completes.eq_of_completes {m' : Message} (h : Completes p i m) (h' : Completes p j m')
    (hsound : p.1.WaitersSound) : i = j := by
  obtain ⟨w, hkeeps, -, ho⟩ := completes_iff.1 h
  obtain ⟨w', hkeeps', -, ho'⟩ := completes_iff.1 h'
  have hw : w = w' := congrArg Waiter.id (Option.some.inj (ho.symm.trans ho'))
  subst hw
  exact hsound.eq_of_keeps hkeeps hkeeps'

/-- A call that was completed is not completed by a later frame. -/
theorem Completes.not_completes {m' : Message} (h : Completes p i m) (hsound : p.1.WaitersSound)
    (hlater : Later (p.1.route p.2) q.1) : ¬ Completes q i m' := by
  intro h'
  obtain ⟨w, ⟨call, hcall, hw⟩, htakes⟩ := completes_iff.1 h
  obtain ⟨w', ⟨call', hcall', hw'⟩, -, ho'⟩ := completes_iff.1 h'
  obtain ⟨-, hwaits', -⟩ := Outstanding.oldest?_eq_some ho'
  -- the call still keeps the waiter that was told the first frame
  have hsame : w = w' := by
    obtain ⟨call'', hcall'', -, -, hkeep⟩ := hlater.call i call (by rw [calls_route, hcall])
    obtain rfl : call' = call'' := Option.some.inj (hcall'.symm.trans hcall'')
    rcases hkeep w hw with hw | hover
    · exact Option.some.inj (hw.symm.trans hw')
    · rw [Stage.waiter?_eq_none_of_isOver hover] at hw'
      cases hw'
  subst hsame
  obtain ⟨ready, heq⟩ := route_of_takes htakes
  have hle : w ≤ p.1.outstanding.lastId :=
    hsound.bound _ (Outstanding.oldest?_eq_some htakes.2).2.1
  rcases hlater.waits _ hwaits' with hmem | hlt
  · rw [heq] at hmem
    simp [Outstanding.remove] at hmem
  · rw [heq] at hlt
    exact absurd hlt (Nat.not_lt.2 hle)

/-- What a session has to do with the frames that were handed out before. -/
structure Traced (hs : List (Session × Frame)) (s : Session) : Prop where
  fit : s.CallsFit
  sound : s.WaitersSound
  sounds : ∀ p ∈ hs, p.1.WaitersSound
  ordered : hs.Pairwise fun p q => Later (p.1.route p.2) q.1
  later : ∀ p ∈ hs, Later (p.1.route p.2) s
  settings : ∀ p ∈ hs, p.1.settings = s.settings
  answered : ∀ w m, (w, .ok m) ∈ s.replies → ∃ p ∈ hs, Takes p w m
  ended : ∀ (j : Nat) (call : Call) (c : Command) (time : Nat) (outcome : Outcome),
    s.calls[j]? = some call → call.request.awaited? = some c →
    call.stage = .ended time (.ok outcome) →
    ∃ p ∈ hs, ∃ m, Completes p j m ∧ call.request.conclude m = .ok outcome

namespace Traced

theorem ofSettings {settings : Settings} (h : ofSettings settings = .ok s) : Traced [] s where
  fit := .ofSettings h
  sound := .ofSettings h
  sounds := fun _ hp => absurd hp List.not_mem_nil
  ordered := .nil
  later := fun _ hp => absurd hp List.not_mem_nil
  settings := fun _ hp => absurd hp List.not_mem_nil
  answered := by
    obtain rfl := eq_of_ofSettings h
    intro w m hw
    cases hw
  ended := by
    obtain rfl := eq_of_ofSettings h
    intro j call c time outcome hcall
    simp at hcall

/-- A move only adds replies to say that there will be no response. -/
theorem mem_replies_of_move (hmove : Move i s t) (h : (w, .ok m) ∈ t.replies) :
    (w, .ok m) ∈ s.replies := by
  have hlast : ∀ e, (w, .ok m) ∈ s.replies ++ lastReplies s.outstanding e →
      (w, .ok m) ∈ s.replies := by
    intro e he
    rcases List.mem_append.1 he with he | he
    · exact he
    · obtain ⟨v, -, heq⟩ := List.mem_map.1 he
      cases heq
  cases hmove with
  | hush hstopped hready => exact hlast _ h
  | conclude hpump hrun hstops hready => exact hlast _ h
  | _ => exact h

theorem move (h : Traced hs s) (hmove : Move i s t) : Traced hs t where
  fit := h.fit.move hmove
  sound := h.sound.move hmove
  sounds := h.sounds
  ordered := h.ordered
  later := fun p hp => (h.later p hp).trans (.of_move hmove)
  settings := fun p hp => (h.settings p hp).trans hmove.settings_eq.symm
  answered := fun w m hw => h.answered w m (mem_replies_of_move hmove hw)
  ended := by
    intro j call c time outcome hcall hcommand hstage
    rcases hmove.ended hcall hstage with hcall | ⟨call₀, hcall₀, hrequest, hends⟩
    · exact h.ended j call c time outcome hcall hcommand hstage
    · rw [hrequest] at hcommand ⊢
      obtain ⟨w, m, hw, hreply, hconclude⟩ :=
        hends.exists_reply (h.fit j call₀ hcall₀) hcommand
      obtain ⟨p, hp, htakes⟩ := h.answered w m hreply
      exact ⟨p, hp, m,
        htakes.completes (h.sounds p hp) (h.later p hp) ⟨call₀, hcall₀, hw⟩, hconclude⟩

theorem route (h : Traced hs s) (f : Frame) : Traced (hs ++ [(s, f)]) (s.route f) where
  fit := by
    intro j call hj
    rw [calls_route] at hj
    exact h.fit j call hj
  sound := h.sound.route f
  sounds := by
    intro p hp
    rcases List.mem_append.1 hp with hp | hp
    · exact h.sounds p hp
    · rw [List.mem_singleton.1 hp]
      exact h.sound
  ordered := by
    refine List.pairwise_append.2 ⟨h.ordered, List.pairwise_singleton _ _, ?_⟩
    intro p hp q hq
    rw [List.mem_singleton.1 hq]
    exact h.later p hp
  later := by
    intro p hp
    rcases List.mem_append.1 hp with hp | hp
    · exact (h.later p hp).trans (.of_route s f)
    · rw [List.mem_singleton.1 hp]
      exact .refl _
  settings := by
    intro p hp
    obtain ⟨outstanding, news, hub, ready, heq, -⟩ := route_eq s f
    rw [heq]
    rcases List.mem_append.1 hp with hp | hp
    · exact h.settings p hp
    · rw [List.mem_singleton.1 hp]
  answered := by
    intro w m hw
    by_cases htakes : ∃ w m, Takes (s, f) w m
    · obtain ⟨w', m', htakes⟩ := htakes
      obtain ⟨ready, heq⟩ := route_of_takes htakes
      rw [heq] at hw
      rcases List.mem_append.1 hw with hw | hw
      · obtain ⟨p, hp, htakes⟩ := h.answered w m hw
        exact ⟨p, List.mem_append_left _ hp, htakes⟩
      · simp only [List.mem_singleton, Prod.mk.injEq, Except.ok.injEq] at hw
        obtain ⟨rfl, rfl⟩ := hw
        exact ⟨(s, f), by simp, htakes⟩
    · rw [(route_of_not_takes fun w m ht => htakes ⟨w, m, ht⟩).1] at hw
      obtain ⟨p, hp, htakes⟩ := h.answered w m hw
      exact ⟨p, List.mem_append_left _ hp, htakes⟩
  ended := by
    intro j call c time outcome hcall hcommand hstage
    rw [calls_route] at hcall
    obtain ⟨p, hp, hrest⟩ := h.ended j call c time outcome hcall hcommand hstage
    exact ⟨p, List.mem_append_left _ hp, hrest⟩

theorem withPump (h : Traced hs s) (pump : Pump) : Traced hs { s with pump } :=
  { h with
    later := fun p hp => (h.later p hp).trans
      (.of_calls_eq rfl (Nat.le_refl _) (List.Subset.refl _)) }

theorem run {actions : List Action} (h : Traced hs s) (hrun : s.run? actions = some t) :
    Traced (hs ++ s.history actions) t :=
  run?_history_induction hrun move (fun f h => h.route f) (fun pump h => h.withPump pump) h

end Traced

/-- **Responses find their calls.** After any run, a call for a command that has ended well was
completed by one of the frames handed out: it decodes to what the call ended with, is no event, has
the ids of the command, and came when the call had a waiter, which was the oldest of those for that
response. A frame completes one call at most, and a call is completed by one frame at most. A frame
for which nobody waits changes no waiter, and an event never does, whatever it decodes to. -/
theorem responses_correlate {settings : Settings} {s₀ : Session} {actions : List Action}
    (h₀ : ofSettings settings = .ok s₀) (hrun : s₀.run? actions = some s) :
    (∀ (i : Nat) (call : Call) (c : Command) (time : Nat) (outcome : Outcome),
      s.calls[i]? = some call → call.request.awaited? = some c →
      call.stage = .ended time (.ok outcome) →
      ∃ (k : Nat) (p : Session × Frame) (m : Message) (w : Nat),
        (s₀.history actions)[k]? = some p ∧ Completes p i m ∧
        call.request.conclude m = .ok outcome ∧ settings.catalogue.decode p.2 = .ok m ∧
        p.2.id.isEvent = false ∧ p.2.id.classId = c.classId ∧ p.2.id.commandId = c.commandId ∧
        p.1.Keeps i w ∧ ⟨w, c.responseId⟩ ∈ p.1.outstanding.waiters ∧
        ∀ v ∈ p.1.outstanding.waiters, v.expects = c.responseId → w ≤ v.id) ∧
    (∀ p ∈ s₀.history actions, ∀ i j m m', Completes p i m → Completes p j m' → i = j) ∧
    (∀ (k l : Nat) (p q : Session × Frame) (i : Nat) (m m' : Message),
      (s₀.history actions)[k]? = some p → (s₀.history actions)[l]? = some q →
      Completes p i m → Completes q i m' → k = l) ∧
    (∀ p ∈ s₀.history actions, (∀ w ∈ p.1.outstanding.waiters, w.expects ≠ p.2.id) →
      (p.1.route p.2).outstanding.waiters = p.1.outstanding.waiters ∧
      (p.1.route p.2).replies = p.1.replies) ∧
    ∀ p ∈ s₀.history actions, p.2.id.isEvent = true →
      (p.1.route p.2).outstanding.waiters = p.1.outstanding.waiters ∧
      (p.1.route p.2).replies = p.1.replies ∧ ∀ i m, ¬ Completes p i m := by
  have h := (Traced.ofSettings h₀).run hrun
  rw [List.nil_append] at h
  have hsettings : s.settings = settings := by
    rw [settings_eq_of_run? hrun, eq_of_ofSettings h₀]
  refine ⟨?_, ?_, ?_, ?_, ?_⟩
  · intro i call c time outcome hcall hcommand hstage
    obtain ⟨p, hp, m, hcompletes, hconclude⟩ :=
      h.ended i call c time outcome hcall hcommand hstage
    obtain ⟨k, hk⟩ := List.mem_iff_getElem?.1 hp
    obtain ⟨w, call', c', hcall', hw, hcommand', hid, hwaits, holdest, hd⟩ :=
      hcompletes.facts (h.sounds p hp)
    obtain ⟨call'', hcall'', hrequest, -, -⟩ :=
      ((Later.of_route p.1 p.2).trans (h.later p hp)).call i call' hcall'
    obtain rfl : call = call'' := Option.some.inj (hcall.symm.trans hcall'')
    obtain rfl : c = c' := by
      rw [hrequest, hcommand'] at hcommand
      exact (Option.some.inj hcommand).symm
    rw [h.settings p hp, hsettings] at hd
    refine ⟨k, p, m, w, hk, hcompletes, hconclude, hd, ?_, ?_, ?_, ⟨call', hcall', hw⟩, hwaits,
      holdest⟩
    · rw [hid]
      rfl
    · rw [hid]
      rfl
    · rw [hid]
      rfl
  · intro p hp i j m m' hi hj
    exact hi.eq_of_completes hj (h.sounds p hp)
  · intro k l p q i m m' hk hl hp hq
    obtain ⟨hkl, rfl⟩ := List.getElem?_eq_some_iff.1 hk
    obtain ⟨hll, rfl⟩ := List.getElem?_eq_some_iff.1 hl
    have hordered := List.pairwise_iff_getElem.1 h.ordered
    rcases Nat.lt_trichotomy k l with hlt | rfl | hlt
    · exact absurd hq (hp.not_completes (h.sounds _ (List.getElem_mem hkl))
        (hordered k l hkl hll hlt))
    · rfl
    · exact absurd hp (hq.not_completes (h.sounds _ (List.getElem_mem hll))
        (hordered l k hll hkl hlt))
  · intro p hp hnobody
    have hroute := route_of_not_takes (s := p.1) (f := p.2) fun w m htakes =>
      hnobody _ (Outstanding.oldest?_eq_some htakes.2).2.1 rfl
    exact ⟨hroute.2.1, hroute.1⟩
  · intro p hp hevent
    have hnot : ∀ w m, ¬ Takes p w m := by
      intro w m htakes
      rw [(Outstanding.oldest?_eq_some htakes.2).1] at hevent
      cases hevent
    have hroute := route_of_not_takes hnot
    refine ⟨hroute.2.1, hroute.1, ?_⟩
    intro i m hcompletes
    obtain ⟨w, -, htakes⟩ := completes_iff.1 hcompletes
    exact hnot w m htakes

/-- Settings under which an event with the ids of a hello decodes to the answer to one. -/
def helloEvents : Settings where
  catalogue := ⟨[(.response 0x00 0x01, Message.decode .systemHello),
    (.event 0x00 0x01, Message.decode .systemHello)]⟩

/-- Two hellos under way at once, such an event, then the answer to the first of them, which is
awaited after the second. -/
def twoHellos : List Action :=
  [.call (.initiate (.bare 0x00 0x01)), .call (.initiate (.bare 0x00 0x01)), .write (.ok ()),
    .write (.ok ()), .read (.received [0x80, 0x00, 0x00, 0x01]),
    .read (.received [0x00, 0x00, 0x00, 0x01]), .await 1 none, .await 0 none]

theorem responses_correlate_two_hellos : ∃ s₀ s call,
    ofSettings helloEvents = .ok s₀ ∧ s₀.run? twoHellos = some s ∧ s.calls[0]? = some call ∧
    call.stage = .ended 0 (.ok (.message ⟨.systemHello, ()⟩)) ∧ s.stage? 1 = some (.forReply 2) ∧
    ∃ (k : Nat) (p : Session × Frame) (m : Message), (s₀.history twoHellos)[k]? = some p ∧
      Completes p 0 m ∧ p.2.id.isEvent = false := by
  have h₀ : ofSettings helloEvents = .ok _ := rfl
  obtain ⟨s, hrun, hcalls⟩ := Option.map_eq_some_iff.1 (by decide +kernel :
    ((ofSettings helloEvents).toOption.bind (·.run? twoHellos)).map (·.calls) = some
      [⟨.initiate (.bare 0x00 0x01), none, .ended 0 (.ok (.message ⟨.systemHello, ()⟩))⟩,
        ⟨.initiate (.bare 0x00 0x01), none, .forReply 2⟩])
  rw [h₀] at hrun
  have hcall : s.calls[0]? = some
      ⟨.initiate (.bare 0x00 0x01), none, .ended 0 (.ok (.message ⟨.systemHello, ()⟩))⟩ := by
    rw [hcalls]
    rfl
  obtain ⟨k, p, m, w, hk, hcompletes, -, -, hevent, -⟩ :=
    (responses_correlate h₀ hrun).1 0 _ (.bare 0x00 0x01) 0 _ hcall rfl rfl
  refine ⟨_, s, _, h₀, hrun, hcall, rfl, ?_, k, p, m, hk, hcompletes, hevent⟩
  rw [stage?, hcalls]
  rfl

end Session

end BleHost
