import BleHost.Proofs.Session.Ledger
import BleHost.Proofs.Session.LinkUse

/-!
# Frames pass in order

The frames in the ledger of a run are those that the link was given, in the same order and each of
them once, then those that were thrown out when the queue was closed, then those that are still in
the queue (`Flows`). What is noted of a frame is what the link answered to it, or that the session
was dead before the link got it (`Flows.receipt?_iff`).
-/

namespace BleHost

/-- The bytes that a use of the link hands over. -/
def LinkUse.written? : LinkUse → Option (List UInt8)
  | write bytes => some bytes
  | _ => none

namespace Session

variable {i j : Nat} {s s₀ t u v : Session} {call call' : Call} {hs : List (Session × Frame)}
  {action : Action} {actions after : List Action} {book : List (Nat × Outgoing)} {ticket : Nat}
  {past : List (Outgoing × Except Error Unit)} {lost : List Outgoing} {o o' : Outgoing}
  {outcome : Except Error Unit}

/-! ### What the link is given -/

/-- The frames that were sent, each with the answer of the link. -/
def attempts (log : List (Session × Transfer)) : List (Outgoing × Except Error Unit) :=
  log.filterMap fun
    | (_, .sent o outcome) => some (o, outcome)
    | _ => none

/-- The frames that the link is given during a run, in order, each with its answer. -/
def passed (s : Session) (actions : List Action) : List (Outgoing × Except Error Unit) :=
  attempts (s.log actions)

theorem attempts_append (log log' : List (Session × Transfer)) :
    attempts (log ++ log') = attempts log ++ attempts log' := List.filterMap_append

/-- Reading gives the link nothing. -/
theorem attempts_read (s : Session) (outcome : ReadOutcome) :
    attempts (s.transfers (.read outcome)) = [] := by
  show attempts ((s.handouts (.read outcome)).map fun p => (p.1, .received p.2)) = []
  simp [attempts, List.filterMap_map]

theorem passed_cons (hstep : s.step? action = some t) :
    s.passed (action :: actions) = attempts (s.transfers action) ++ t.passed actions := by
  rw [passed, log_cons hstep, attempts_append, ← passed]

/-- The link is given the bytes of a frame as they are, in one use. -/
theorem written?_linkUses (hstep : s.step? action = some t) :
    (s.linkUses action).filterMap LinkUse.written? =
      (attempts (s.transfers action)).map (·.1.bytes) := by
  have hclose : ∀ p : Prop, [Decidable p] →
      (if p then [LinkUse.close] else []).filterMap LinkUse.written? = [] := by
    intro p hp
    split <;> rfl
  rw [linkUses, hstep]
  dsimp only
  rw [List.filterMap_append, hclose, List.append_nil]
  cases action with
  | write outcome =>
    rw [access, transfers]
    cases s.want with
    | write frame => rfl
    | _ => rfl
  | read outcome =>
    rw [attempts_read]
    rfl
  | _ => rfl

theorem written?_linkHistory (hrun : s.run? actions = some t) :
    (s.linkHistory actions).filterMap LinkUse.written? = (s.passed actions).map (·.1.bytes) := by
  induction actions generalizing s with
  | nil => rfl
  | cons action actions ih =>
    obtain ⟨u, hstep, hrest⟩ := run?_cons_eq_some.1 hrun
    rw [linkHistory_cons hstep, passed_cons hstep, List.filterMap_append, List.map_append,
      ih hrest, written?_linkUses hstep]

/-! ### Where the frames are -/

/-- Where the frames in a ledger have got to: the link was given the first of them, the next were
thrown out of the queue, and the others are in it. -/
structure Flows (book : List (Nat × Outgoing)) (past : List (Outgoing × Except Error Unit))
    (lost : List Outgoing) (s : Session) : Prop where
  frames : book.map (·.2) = past.map (·.1) ++ lost ++ s.outbound.queued
  receipts : s.receipts =
    past.map (fun a => (a.1.ticket, a.2)) ++ lost.map fun o => (o.ticket, .error .dead)
  kept : s.outbound.closed = false → lost = []

namespace Flows

theorem nil {settings : Settings} (h : ofSettings settings = .ok s) : Flows [] [] [] s := by
  obtain rfl := eq_of_ofSettings h
  exact ⟨rfl, rfl, fun _ => rfl⟩

theorem same (h : Flows book past lost s) (hqueued : t.outbound.queued = s.outbound.queued)
    (hclosed : t.outbound.closed = s.outbound.closed) (hreceipts : t.receipts = s.receipts) :
    Flows book past lost t where
  frames := by rw [hqueued, h.frames]
  receipts := by rw [hreceipts, h.receipts]
  kept := by rw [hclosed]; exact h.kept

/-- A frame gets into the queue. -/
theorem push (h : Flows book past lost s) (hcall : t.calls[i]? = some call) {bytes : List UInt8}
    (hframe : call.request.frame? = some bytes) (hopen : s.outbound.closed = false)
    (hqueued : t.outbound.queued = s.outbound.queued ++ [⟨s.outbound.lastTicket + 1, bytes⟩])
    (hlast : t.outbound.lastTicket = s.outbound.lastTicket + 1)
    (hreceipts : t.receipts = s.receipts) : Flows (book ++ entriesBetween i s t) past lost t where
  frames := by
    rw [entriesBetween_of_push hcall hframe hlast, List.map_append, h.frames, hqueued,
      List.append_assoc]
    rfl
  receipts := by rw [hreceipts, h.receipts]
  kept := fun _ => h.kept hopen

/-- The queue is closed, and what is in it is thrown out. -/
theorem close (h : Flows book past lost s) (hqueued : t.outbound = s.outbound.close)
    (hreceipts : t.receipts = s.receipts ++ lastReceipts s.outbound) :
    Flows book past (lost ++ s.outbound.queued) t where
  frames := by
    rw [hqueued, h.frames, List.append_assoc]
    exact (List.append_nil _).symm
  receipts := by
    rw [hreceipts, h.receipts, List.map_append, ← List.append_assoc]
    rfl
  kept := by
    rw [hqueued]
    exact nofun

theorem wrote (h : Flows book past lost s) (hs : s.Sound) (hwrote : Wrote o outcome s t) :
    Flows book (past ++ [(o, outcome)]) [] t := by
  have hopen := (hs.life.open_of_isRunning hwrote.running).2.1
  obtain rfl := h.kept hopen
  constructor
  · rw [h.frames, hwrote.queued]
    simp
  · rw [hwrote.receipts, h.receipts]
    simp
  · exact fun _ => rfl

/-- A caller's move. -/
theorem move (h : Flows book past lost s) (hfiled : Filed book s) (hmove : Move i s t)
    (hi : i ≤ s.calls.length) : ∃ lost, Flows (book ++ entriesBetween i s t) past lost t := by
  have hnone : t.outbound.lastTicket = s.outbound.lastTicket →
      (∃ lost, Flows book past lost t) →
        ∃ lost, Flows (book ++ entriesBetween i s t) past lost t := by
    intro hlast h
    rwa [entriesBetween_of_eq hlast, List.append_nil]
  cases hmove with
  | queue hcall hstage hturn hlive hclaims hopen hroom hready =>
    exact ⟨lost, h.push (getElem?_modify_self hcall _) hclaims.frame?_eq hopen rfl rfl rfl⟩
  | @retry call bytes waiter ready hcall hstage hopen hgranted hready =>
    have hframe := hfiled.carried i call bytes waiter hcall hstage
    exact ⟨lost, h.push (getElem?_modify_self hcall _) hframe hopen rfl rfl rfl⟩
  | finish hcall hgoing hover hready =>
    exact hnone (lastTicket_withoutCaller ..)
      ⟨lost, h.same (queued_withoutCaller ..) (closed_withoutCaller ..) rfl⟩
  | cutOff hdown hsilent hneed hready hopen => exact hnone rfl ⟨_, h.close rfl rfl⟩
  | wrote outcome hpump hrun hqueued hready => omega
  | goOn hpump hrun hnew => omega
  | conclude hpump hrun hstops hready => omega
  | breakOff hpump hrun hb hready => omega
  | _ => exact hnone rfl ⟨lost, h.same rfl rfl rfl⟩

theorem moves (h : Flows book past lost s) (hfiled : Filed book s) (hmoves : Moves i hs s t)
    (hnil : hs = []) (hi : i ≤ s.calls.length) :
    ∃ lost, Flows (book ++ entriesBetween i s t) past lost t := by
  induction hmoves generalizing book lost with
  | refl s => exact ⟨lost, by rwa [entriesBetween_of_eq rfl, List.append_nil]⟩
  | move hmove hrest ih =>
    have hmid := hfiled.move hmove
    obtain ⟨lost', h'⟩ := h.move hfiled hmove hi
    have hall := ih h' hmid hnil (Nat.le_trans hi hmove.length_calls_le)
    rwa [List.append_assoc, hmid.entriesBetween_append hmove.lastTicket_le hrest] at hall
  | route hrun hrest ih => cases hnil

theorem obey (h : Flows book past lost s) (verdict : Verdict) :
    ∃ lost, Flows book past lost (s.obey verdict) := by
  cases verdict with
  | goOn => exact ⟨lost, h.same rfl rfl rfl⟩
  | rest => exact ⟨lost, h.same rfl rfl rfl⟩
  | giveUp cause =>
    refine ⟨lost ++ s.outbound.queued, ?_⟩
    show Flows _ _ _ (s.giveUp cause)
    unfold giveUp
    dsimp only
    split
    · obtain ⟨ready, heq, -⟩ :=
        cutOff_wakeWhere_eq { s with lifecycle := s.lifecycle.terminate (.linkLost cause) }
      exact h.close (congrArg outbound heq) (congrArg Session.receipts heq)
    · obtain ⟨ready, heq, -⟩ := closeOutstanding_conclude_eq
        { s with lifecycle := s.lifecycle.terminate (.linkLost cause) } (.linkLost cause)
      exact h.close (congrArg outbound heq) (congrArg Session.receipts heq)

theorem foldl_route (h : Flows book past lost s) (frames : List Frame) :
    Flows book past lost (frames.foldl route s) := by
  induction frames generalizing s with
  | nil => exact h
  | cons frame frames ih =>
    obtain ⟨outstanding, news, hub, ready, heq, -⟩ := route_eq s frame
    exact ih (h.same (by rw [heq]) (by rw [heq]) (by rw [heq]))

end Flows

/-! ### Actions -/

theorem Move.lastTicket_eq (hmove : Move i s t) (hi : s.calls.length < i) :
    t.outbound.lastTicket = s.outbound.lastTicket := by
  have hnone : ∀ {call : Call} {last : Prop}, s.calls[i]? = some call → last := by
    intro call last hcall
    have hlt := (List.getElem?_eq_some_iff.1 hcall).1
    omega
  cases hmove with
  | queue hcall hstage hturn hlive hclaims hopen hroom hready => exact hnone hcall
  | retry hcall hstage hopen hgranted hready => exact hnone hcall
  | finish hcall hgoing hover hready => exact hnone hcall
  | wrote outcome hpump hrun hqueued hready => exact Outbound.lastTicket_pop _
  | _ => rfl

/-- Without a call nothing is queued. -/
theorem Moves.lastTicket_eq (hmoves : Moves i hs s t) (hi : s.calls.length < i) :
    t.outbound.lastTicket = s.outbound.lastTicket := by
  induction hmoves with
  | refl s => rfl
  | move hmove hrest ih =>
    exact (ih (by rwa [hmove.calls_eq hi])).trans (hmove.lastTicket_eq hi)
  | route hrun hrest ih =>
    exact (ih (by rwa [calls_route])).trans (lastTicket_route _ _)

/-- What is no caller's own queues nothing. -/
theorem lastTicket_eq_of_step? (hstep : s.step? action = some t) (hi : s.calls.length < i)
    (hactor : s.IsActor i action) : t.outbound.lastTicket = s.outbound.lastTicket :=
  Moves.lastTicket_eq (s := { s with pump := s.pumpAfter action })
    (moves_of_isActor hactor hstep) hi

theorem entries_eq_nil (hstep : s.step? action = some t) (hi : s.calls.length < i)
    (hactor : s.IsActor i action) : s.entries action = [] := by
  rw [entries_eq hstep, entriesBetween_of_eq (lastTicket_eq_of_step? hstep hi hactor)]

namespace Flows

/-- What a caller does with his own call. -/
theorem own (h : Flows book past lost s) (hfiled : Filed book s) (hstep : s.step? action = some t)
    (hown : s.IsOwn i action) : ∃ lost, Flows (book ++ s.entries action) past lost t := by
  have hactor : s.actor action = i := by
    cases action <;> first | exact hown | exact absurd hown id
  by_cases hi : i ≤ s.calls.length
  · rw [entries_eq hstep, hactor]
    exact h.moves hfiled (moves_of_isOwn hown hstep) rfl hi
  · have hlt : s.calls.length < i := by omega
    rw [entries_eq_nil hstep hlt (hactor ▸ s.isActor_actor action), List.append_nil]
    have hnone : s.calls[i]? = none := List.getElem?_eq_none (Nat.le_of_lt hlt)
    rcases own_of_nobody hstep hown hnone with ⟨request, -, hi'⟩ | ⟨ready, rfl⟩
    · omega
    · exact ⟨lost, h.same rfl rfl rfl⟩

/-- Every action moves frames along. -/
theorem step (h : Flows book past lost s) (hfiled : Filed book s) (hs : s.Reachable)
    (hstep : s.step? action = some t) :
    ∃ lost, Flows (book ++ s.entries action) (past ++ attempts (s.transfers action)) lost t := by
  have hfar : s.calls.length < s.calls.length + 1 := Nat.lt_succ_self _
  have hown : s.IsOwn (s.actor action) action → s.transfers action = [] →
      ∃ lost, Flows (book ++ s.entries action) (past ++ attempts (s.transfers action)) lost t := by
    intro hown hnil
    rw [hnil, attempts, List.filterMap_nil, List.append_nil]
    exact h.own hfiled hstep hown
  -- whatever else is no round of the pump
  have hidle : (∀ i, s.IsActor i action) → s.transfers action = [] → s.handouts action = [] →
      { s with pump := s.pumpAfter action } = s →
      ∃ lost, Flows (book ++ s.entries action) (past ++ attempts (s.transfers action)) lost t := by
    intro hactor hnil hhandouts hpump
    have hmoves := moves_of_isActor (hactor 0) hstep
    rw [hpump] at hmoves
    have hall := h.moves hfiled hmoves hhandouts (Nat.zero_le _)
    rwa [entriesBetween_of_eq (lastTicket_eq_of_step? hstep hfar (hactor _)),
      ← entries_eq_nil hstep hfar (hactor _), ← List.append_nil past,
      show ([] : List (Outgoing × Except Error Unit)) = attempts (s.transfers action) by
        rw [hnil]; rfl] at hall
  cases action with
  | call request => exact hown rfl rfl
  | await index limit => exact hown rfl rfl
  | abandon index => exact hown rfl rfl
  | turn index => exact hown rfl rfl
  | halt =>
    rw [entries_eq_nil hstep hfar hfar, List.append_nil]
    simp only [step?] at hstep
    split at hstep
    · obtain ⟨ready, heq, -⟩ := closeOutstanding_conclude_eq s .dead
      obtain rfl := Option.some.inj hstep
      refine ⟨lost ++ s.outbound.queued, ?_⟩
      have hclosed := h.close (t := s.halt) (congrArg outbound heq) (congrArg Session.receipts heq)
      exact (List.append_nil past).symm ▸ hclosed
    · cases hstep
  | write outcome =>
    rw [entries_eq_nil hstep hfar hfar, List.append_nil]
    obtain ⟨o, u, verdict, htransfers, hwrote, hu, rfl⟩ := exists_wrote hstep (.of_reachable hs)
    rw [htransfers]
    exact (h.wrote (.of_reachable hs) hwrote).obey verdict
  | read outcome =>
    rw [entries_eq_nil hstep hfar hfar, List.append_nil]
    simp only [step?] at hstep
    split at hstep
    · obtain rfl := Option.some.inj hstep
      have hpump : Flows book past lost { s with pump := s.pumpAfter (.read outcome) } :=
        h.same rfl rfl rfl
      rw [attempts_read, List.append_nil]
      exact (hpump.foldl_route _).obey _
    · cases hstep
  | release => exact hidle (fun _ => trivial) rfl rfl rfl
  | pause => exact hidle (fun _ => trivial) rfl rfl rfl
  | pass ms => exact hidle (fun _ => trivial) rfl rfl rfl
  | listen listener => exact hidle (fun _ => trivial) rfl rfl rfl
  | use use => exact hidle (fun _ => trivial) rfl rfl rfl

theorem run (h : Flows book past lost s) (hfiled : Filed book s) (hs : s.Reachable)
    (hrun : s.run? actions = some t) :
    ∃ lost, Flows (book ++ s.ledger actions) (past ++ s.passed actions) lost t := by
  induction actions generalizing s book past lost with
  | nil =>
    obtain rfl : s = t := by simpa using hrun
    refine ⟨lost, ?_⟩
    rw [Session.ledger, gather, passed, log, attempts, List.filterMap_nil, List.append_nil,
      List.append_nil]
    exact h
  | cons action actions ih =>
    obtain ⟨u, hstep, hrest⟩ := run?_cons_eq_some.1 hrun
    obtain ⟨lost', h'⟩ := h.step hfiled hs hstep
    rw [ledger_cons hstep, passed_cons hstep, ← List.append_assoc, ← List.append_assoc]
    exact ih h' (hfiled.step hstep) (hs.step hstep) hrest

end Flows

/-- The frames of a run from the beginning. -/
theorem exists_flows {settings : Settings} (h₀ : ofSettings settings = .ok s₀)
    (hrun : s₀.run? actions = some t) :
    ∃ lost, Flows (s₀.ledger actions) (s₀.passed actions) lost t := by
  have h := (Flows.nil h₀).run (.nil h₀) (.refl h₀) hrun
  rwa [List.nil_append, List.nil_append] at h

/-! ### What becomes of a frame -/

theorem TicketsSound.receipt?_eq_some (h : s.TicketsSound) :
    s.receipt? ticket = some outcome ↔ (ticket, outcome) ∈ s.receipts := by
  have hnodup : (s.receipts.map (·.1)).Nodup := by
    have hall : (s.receipts.map (·.1) ++ s.outbound.tickets).Nodup := by
      rw [h.numbered]
      exact List.nodup_range'
    exact (List.nodup_append.1 hall).1
  constructor
  · exact mem_of_lookup
  · intro hmem
    rcases hfind : s.receipt? ticket with _ | outcome'
    · exact absurd hmem (receipt?_eq_none.1 hfind outcome)
    · obtain ⟨r, hr, rfl⟩ := Option.map_eq_some_iff.1 hfind
      have hticket : r.1 = ticket := by simpa using List.find?_some hr
      rw [List.inj_on_of_nodup_map hnodup (List.mem_of_find?_eq_some hr) hmem hticket]

theorem Filed.nodup_frames (h : Filed book s) : (book.map (·.2)).Nodup := by
  refine List.Nodup.of_map (f := Outgoing.ticket) ?_
  rw [List.map_map]
  exact h.numbered ▸ List.nodup_range'

/-- No two frames in a ledger have the same ticket. -/
theorem Filed.eq_of_ticket_eq (h : Filed book s) (ho : o ∈ book.map (·.2))
    (ho' : o' ∈ book.map (·.2)) (hticket : o.ticket = o'.ticket) : o = o' := by
  have hnodup : ((book.map (·.2)).map (·.ticket)).Nodup := by
    rw [List.map_map]
    exact h.numbered ▸ List.nodup_range'
  exact List.inj_on_of_nodup_map hnodup ho ho' hticket

/-- No call has two entries in a ledger. -/
theorem Filed.eq_of_mem (h : Filed book s) (ho : (i, o) ∈ book) (ho' : (i, o') ∈ book) : o = o' :=
  congrArg Prod.snd (List.inj_on_of_nodup_map h.once ho ho' rfl)

namespace Flows

theorem nodup (h : Flows book past lost s) (hfiled : Filed book s) :
    (past.map (·.1) ++ lost ++ s.outbound.queued).Nodup := by
  rw [← h.frames]
  exact hfiled.nodup_frames

/-- What is noted of a frame is what the link answered, or that the session was dead before the link
got it. -/
theorem receipt?_iff (h : Flows book past lost s) (hfiled : Filed book s) (hs : s.Sound)
    (hmem : o ∈ book.map (·.2)) :
    s.receipt? o.ticket = some outcome ↔ (o, outcome) ∈ past ∨
      outcome = .error .dead ∧ s.pumpState.isOver = true ∧ o ∉ past.map (·.1) := by
  have hnodup := h.nodup hfiled
  have hbook : ∀ o', o' ∈ past.map (·.1) ++ lost → o'.ticket = o.ticket → o' = o := by
    intro o' ho' hticket
    refine hfiled.eq_of_ticket_eq ?_ hmem hticket
    rw [h.frames]
    exact List.mem_append_left _ ho'
  rw [hs.tickets.receipt?_eq_some, h.receipts, List.mem_append]
  refine or_congr ?_ ?_
  · constructor
    · intro hpast
      obtain ⟨a, ha, heq⟩ := List.mem_map.1 hpast
      obtain ⟨hticket, rfl⟩ := Prod.mk.inj heq
      have ho := hbook a.1 (List.mem_append_left _ (List.mem_map_of_mem ha)) hticket
      rwa [← ho]
    · exact fun ha => List.mem_map.2 ⟨_, ha, rfl⟩
  · constructor
    · intro hlost
      obtain ⟨o', ho', heq⟩ := List.mem_map.1 hlost
      obtain ⟨hticket, rfl⟩ := Prod.mk.inj heq
      obtain rfl := hbook o' (List.mem_append_right _ ho') hticket
      refine ⟨rfl, ?_, ?_⟩
      · rw [← hs.life.outbound_closed]
        by_contra hopen
        rw [h.kept (eq_false_of_ne_true hopen)] at ho'
        cases ho'
      · intro hpast
        exact (List.nodup_append.1 (List.nodup_append.1 hnodup).1).2.2 o' hpast o' ho' rfl
    · rintro ⟨rfl, hover, hpast⟩
      have hempty := (hs.queue.empty (hs.life.outbound_closed.trans hover)).1
      rw [Outbound.tickets, List.map_eq_nil_iff] at hempty
      rw [h.frames, hempty, List.append_nil] at hmem
      exact List.mem_map.2 ⟨o, (List.mem_append.1 hmem).resolve_left hpast, rfl⟩

end Flows

end Session

end BleHost
