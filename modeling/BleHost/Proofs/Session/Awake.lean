import BleHost.Proofs.Session.Line
import BleHost.Proofs.Session.Queue

/-!
# Nobody sleeps through the news

A call can go on (`CanGoOn`) once its turn in the line has come, its slot has been set aside, its
frame dealt with, its response told, or the pump has stopped. Whatever brings that about gives the
caller a reason to take a turn, and the reason stays until he takes one, so that in every session
whoever can go on has a reason to (`awake_of_reachable`). When no caller has a reason to take a
turn, nobody could go on.
-/

namespace BleHost

namespace Session

variable {i j : Nat} {s t u : Session} {call : Call} {hs : List (Session × Frame)}
  {action : Action}

/-- Whether a turn of its caller would bring a call to another stage. -/
def CanGoOn (s : Session) (index : Nat) (call : Call) : Prop :=
  match call.stage with
  | .inLine => s.line.head? = some index
  | .forSlot _ _ => s.outbound.closed = true ∨ index ∈ s.outbound.granted
  | .forWrite ticket _ => ∃ outcome, (ticket, outcome) ∈ s.receipts
  | .forReply waiter => ∃ reply, (waiter, reply) ∈ s.replies
  | .forPump => s.pumpState.isOver = true
  | .held _ _ | .ended _ _ | .dropped => False

/-- A caller has a reason to take a turn if his call can go on, and stands in line for an exchange
only. -/
def AwakeAt (s : Session) (j : Nat) : Prop :=
  ∀ call : Call, s.calls[j]? = some call →
    (s.CanGoOn j call → .caller j ∈ s.ready) ∧
      (call.stage = .inLine → call.request.exclusive?.isSome = true)

/-! ### The other callers -/

theorem AwakeAt.of_news (h : s.AwakeAt j)
    (hcalls : ∀ call, t.calls[j]? = some call → s.calls[j]? = some call)
    (hready : .caller j ∈ s.ready → .caller j ∈ t.ready)
    (hnews : ∀ call, s.calls[j]? = some call → t.CanGoOn j call →
      s.CanGoOn j call ∨ .caller j ∈ t.ready) : t.AwakeAt j := by
  intro call hcall
  obtain ⟨hawake, hexclusive⟩ := h call (hcalls call hcall)
  refine ⟨fun hgo => ?_, hexclusive⟩
  rcases hnews call (hcalls call hcall) hgo with hgo | hmem
  · exact hready (hawake hgo)
  · exact hmem

/-- Nothing has changed that a call could wait for. -/
theorem AwakeAt.of_eq (h : s.AwakeAt j)
    (hcalls : ∀ call, t.calls[j]? = some call → s.calls[j]? = some call)
    (hready : .caller j ∈ s.ready → .caller j ∈ t.ready)
    (hgo : ∀ call, t.CanGoOn j call → s.CanGoOn j call) : t.AwakeAt j :=
  h.of_news hcalls hready fun call _ hcan => .inl (hgo call hcan)

/-- The outbound queue is closed, and the waiters may be told something. -/
theorem AwakeAt.of_closing (h : s.AwakeAt j) (hqueue : s.QueueSound)
    {news : List (Nat × Except Error Message)} {p : Nat → Stage → Prop}
    (hcalls : t.calls = s.calls) (hline : t.line = s.line)
    (hreceipts : t.receipts = s.receipts ++ lastReceipts s.outbound)
    (hreplies : t.replies = s.replies ++ news) (hready : s.Rouses t.ready p)
    (hwaits : ∀ call, s.calls[j]? = some call → WaitsAt s.outbound j call.stage → p j call.stage)
    (hnews : ∀ call, s.calls[j]? = some call →
      (∃ r ∈ news, call.stage = .forReply r.1) → p j call.stage)
    (hpump : ∀ call, s.calls[j]? = some call → call.stage = .forPump → p j call.stage) :
    t.AwakeAt j := by
  refine h.of_news (by rw [hcalls]; exact fun _ hcall => hcall) (fun hmem => hready.subset hmem) ?_
  intro call hcall hgo
  unfold CanGoOn at hgo ⊢
  cases hstage : call.stage with
  | inLine =>
    simp only [hstage, hline] at hgo
    exact .inl hgo
  | forSlot bytes waiter =>
    have hplace := QueueSound.getElem?_places hcall
    rw [hstage] at hplace
    rcases hqueue.waits j hplace with hclosed | hmem
    · exact .inl (.inl hclosed)
    · exact .inr (hready.mem j call hcall (hwaits call hcall (.inr (List.mem_append.1 hmem))))
  | forWrite ticket waiter =>
    simp only [hstage, hreceipts] at hgo
    obtain ⟨outcome, hmem⟩ := hgo
    rcases List.mem_append.1 hmem with hmem | hmem
    · exact .inl ⟨outcome, hmem⟩
    · obtain ⟨o, ho, he⟩ := List.mem_map.1 hmem
      obtain ⟨rfl, -⟩ := Prod.mk.inj he
      exact .inr (hready.mem j call hcall (hwaits call hcall (.inl ⟨o, ho, waiter, hstage⟩)))
  | forReply waiter =>
    simp only [hstage, hreplies] at hgo
    obtain ⟨reply, hmem⟩ := hgo
    rcases List.mem_append.1 hmem with hmem | hmem
    · exact .inl ⟨reply, hmem⟩
    · exact .inr (hready.mem j call hcall (hnews call hcall ⟨_, hmem, hstage⟩))
  | forPump => exact .inr (hready.mem j call hcall (hpump call hcall hstage))
  | _ =>
    rw [hstage] at hgo
    exact absurd hgo id

/-- Waiters are told something. -/
theorem AwakeAt.of_replies (h : s.AwakeAt j) {news : List (Nat × Except Error Message)}
    {p : Nat → Stage → Prop} (hcalls : t.calls = s.calls) (hline : t.line = s.line)
    (hout : t.outbound = s.outbound) (hreceipts : t.receipts = s.receipts)
    (hstate : t.pumpState = s.pumpState) (hreplies : t.replies = s.replies ++ news)
    (hready : s.Rouses t.ready p)
    (hnews : ∀ stage, (∃ r ∈ news, stage = .forReply r.1) → p j stage) : t.AwakeAt j := by
  refine h.of_news (by rw [hcalls]; exact fun _ hcall => hcall) (fun hmem => hready.subset hmem) ?_
  intro call hcall hgo
  unfold CanGoOn at hgo ⊢
  rw [hline, hout, hreceipts, hstate, hreplies] at hgo
  cases hstage : call.stage with
  | forReply waiter =>
    rw [hstage] at hgo
    obtain ⟨reply, hmem⟩ := hgo
    rcases List.mem_append.1 hmem with hmem | hmem
    · exact .inl ⟨reply, hmem⟩
    · exact .inr (hready.mem j call hcall (hnews _ ⟨_, hmem, hstage⟩))
  | _ =>
    rw [hstage] at hgo
    exact .inl hgo

/-- A change that concerns the call at another place. -/
theorem AwakeAt.of_modify (h : s.AwakeAt j) (hij : i ≠ j) {f : Call → Call}
    (hcalls : t.calls = s.calls.modify i f) (hready : .caller j ∈ s.ready → .caller j ∈ t.ready)
    (hgo : ∀ call, t.CanGoOn j call → s.CanGoOn j call) : t.AwakeAt j := by
  refine h.of_eq ?_ hready hgo
  intro call hcall
  rwa [hcalls, getElem?_modify_of_ne hij] at hcall

/-- Whoever comes to the head of the line, or gets a slot, because a call is over, is roused. -/
theorem AwakeAt.finish (h : s.AwakeAt j) (hij : i ≠ j) {stage stage' : Stage} {ready : List Party}
    (hready : s.Rouses ready fun k _ =>
      (withoutCaller s.outbound i stage).1 = some k ∨
        i ∈ s.line ∧ (s.line.erase i).head? = some k) :
    AwakeAt { s with
      outstanding := withoutWaiter s.outstanding stage
      outbound := (withoutCaller s.outbound i stage).2
      line := s.line.erase i
      calls := s.calls.modify i (·.atStage stage')
      ready } j := by
  refine h.of_news ?_ (fun hmem => hready.subset hmem) ?_
  · intro call hcall
    rwa [getElem?_modify_of_ne hij] at hcall
  · intro call hcall hgo
    unfold CanGoOn at hgo ⊢
    cases hstage : call.stage with
    | inLine =>
      rw [hstage] at hgo
      by_cases hmem : i ∈ s.line
      · exact .inr (hready.mem j call hcall (.inr ⟨hmem, hgo⟩))
      · exact .inl (by rwa [List.erase_of_not_mem hmem] at hgo)
    | forSlot bytes waiter =>
      rw [hstage] at hgo
      rcases hgo with hclosed | hgranted
      · exact .inl (.inl (by rwa [closed_withoutCaller] at hclosed))
      · cases stage with
        | forSlot bytes waiter =>
          rcases Outbound.mem_granted_grant hgranted with hgranted | hnamed
          · exact .inl (.inr (List.mem_of_mem_erase hgranted))
          · exact .inr (hready.mem j call hcall (.inl hnamed))
        | _ => exact .inl (.inr hgranted)
    | _ =>
      rw [hstage] at hgo
      exact .inl hgo

/-- The caller of the first frame is roused, and so is the one who gets its slot. -/
theorem AwakeAt.wrote (h : s.AwakeAt j) {ticket : Nat} (outcome : Except Error Unit)
    {ready : List Party}
    (hready : s.Rouses ready fun k stage =>
      s.outbound.pop.1 = some k ∨ ∃ w, stage = .forWrite ticket w) :
    AwakeAt { s with
      outbound := s.outbound.pop.2
      receipts := s.receipts ++ [(ticket, outcome)]
      ready } j := by
  refine h.of_news (fun _ hcall => hcall) (fun hmem => hready.subset hmem) ?_
  intro call hcall hgo
  unfold CanGoOn at hgo ⊢
  cases hstage : call.stage with
  | forSlot bytes waiter =>
    rw [hstage] at hgo
    rcases hgo with hclosed | hgranted
    · exact .inl (.inl (by rwa [Outbound.closed_pop] at hclosed))
    · rcases Outbound.mem_granted_grant hgranted with hgranted | hnamed
      · exact .inl (.inr hgranted)
      · exact .inr (hready.mem j call hcall (.inl hnamed))
  | forWrite ticket' waiter =>
    rw [hstage] at hgo
    obtain ⟨outcome', hmem⟩ := hgo
    rcases List.mem_append.1 hmem with hmem | hmem
    · exact .inl ⟨outcome', hmem⟩
    · obtain ⟨rfl, -⟩ := Prod.mk.inj (List.mem_singleton.1 hmem)
      exact .inr (hready.mem j call hcall (.inr ⟨waiter, hstage⟩))
  | _ =>
    rw [hstage] at hgo
    exact .inl hgo

/-- A move that concerns another call leaves whoever can go on with a reason to. -/
theorem AwakeAt.move (h : s.AwakeAt j) (hqueue : s.QueueSound) (hij : i ≠ j) (hmove : Move i s t) :
    t.AwakeAt j := by
  cases hmove with
  | rouse alarms hsub =>
    exact h.of_eq (fun _ hcall => hcall) (fun hmem => hsub hmem) fun _ hgo => hgo
  | begin hparty =>
    refine h.of_eq (fun _ hcall => hcall) (fun hmem => ?_) fun _ hgo => hgo
    refine (List.mem_erase_of_ne ?_).2 hmem
    rcases hparty with rfl | rfl
    · exact nofun
    · exact fun he => hij (Party.caller.inj he).symm
  | enter request deadline hi =>
    refine h.of_eq ?_ (fun hmem => hmem) ?_
    · intro call hcall
      rcases getElem?_append_cases hcall with ⟨hj, -⟩ | hcall
      · exact absurd (hi.trans hj.symm) hij
      · exact hcall
    · intro call hgo
      unfold CanGoOn at hgo ⊢
      cases hstage : call.stage with
      | inLine =>
        rw [hstage] at hgo
        dsimp only at hgo
        split at hgo
        · rcases hline : s.line with _ | ⟨first, rest⟩
          · rw [hline] at hgo
            exact absurd (Option.some.inj hgo) hij
          · rw [hline] at hgo
            exact hgo
        · exact hgo
      | _ =>
        rw [hstage] at hgo
        exact hgo
  | queue hcall hstage hturn hlive hclaims hopen hroom hready =>
    exact h.of_modify hij rfl (fun hmem => hready hmem) fun _ hgo => hgo
  | block hcall hstage hturn hlive hclaims hopen hroom =>
    exact h.of_modify hij rfl (fun hmem => hmem) fun _ hgo => hgo
  | refuse bytes hcall hstage hturn hlive hclaims hclosed =>
    exact h.of_modify hij rfl (fun hmem => hmem) fun _ hgo => hgo
  | retry hcall hstage hopen hgranted hready =>
    refine h.of_modify hij rfl (fun hmem => hready hmem) ?_
    intro call hgo
    unfold CanGoOn at hgo ⊢
    cases hstage : call.stage with
    | forSlot bytes waiter =>
      rw [hstage] at hgo
      exact hgo.imp_right List.mem_of_mem_erase
    | _ =>
      rw [hstage] at hgo
      exact hgo
  | expect hcall hstage hreceipt hreply =>
    exact h.of_modify hij rfl (fun hmem => hmem) fun _ hgo => hgo
  | await hcall hstage => exact h.of_modify hij rfl (fun hmem => hmem) fun _ hgo => hgo
  | waitForPump hcall hstage hrequest hrun =>
    exact h.of_modify hij rfl (fun hmem => hmem) fun _ hgo => hgo
  | finish hcall hgoing hover hready => exact h.finish hij hready
  | hush hstopped hready =>
    refine h.of_replies rfl rfl rfl rfl rfl rfl hready ?_
    rintro stage ⟨r, hr, hstage⟩
    obtain ⟨w, hw, rfl⟩ := List.mem_map.1 hr
    exact ⟨w, hw, hstage⟩
  | cutOff hdown hsilent hneed hready =>
    refine h.of_closing hqueue rfl rfl rfl (List.append_nil _).symm hready
      (fun _ _ hwaits => hwaits) ?_ ?_
    · rintro call hcall ⟨r, hr, -⟩
      exact absurd hr List.not_mem_nil
    · intro call hcall hstage
      have hnone := hneed j call hcall
      simp [Call.needsSession, hstage, Stage.isOver] at hnone
  | wrote outcome hpump hrun hqueued hready => exact h.wrote outcome hready
  | goOn hpump hrun hnew =>
    refine h.of_eq (fun _ hcall => hcall) (fun hmem => hmem) ?_
    intro call hgo
    unfold CanGoOn at hgo ⊢
    cases hstage : call.stage with
    | forPump =>
      rw [hstage] at hgo
      rw [hnew] at hgo
      cases hgo
    | _ =>
      rw [hstage] at hgo
      exact hgo
  | conclude hpump hrun hstops hready =>
    refine h.of_closing hqueue rfl rfl rfl rfl hready (fun _ _ hwaits => .inr (.inl hwaits)) ?_
      (fun _ _ hstage => .inr (.inr hstage))
    rintro call hcall ⟨r, hr, hstage⟩
    obtain ⟨w, hw, rfl⟩ := List.mem_map.1 hr
    exact .inl ⟨w, hw, hstage⟩
  | breakOff hpump hrun hb hready =>
    refine h.of_closing hqueue rfl rfl rfl (List.append_nil _).symm hready
      (fun _ _ hwaits => .inl hwaits) ?_ (fun _ _ hstage => .inr hstage)
    rintro call hcall ⟨r, hr, -⟩
    exact absurd hr List.not_mem_nil
  | tick hnow hsub =>
    exact h.of_eq (fun _ hcall => hcall) (fun hmem => hsub hmem) fun _ hgo => hgo
  | _ => exact h.of_eq (fun _ hcall => hcall) (fun hmem => hmem) fun _ hgo => hgo

theorem AwakeAt.route (h : s.AwakeAt j) (frame : Frame) : (s.route frame).AwakeAt j := by
  obtain ⟨outstanding, news, hub, ready, heq, -, -, hready⟩ := route_eq s frame
  rw [heq]
  exact h.of_replies rfl rfl rfl rfl rfl rfl hready fun _ hnews => hnews

theorem AwakeAt.moves (h : s.AwakeAt j) (hqueue : s.QueueSound) (hij : i ≠ j)
    (hmoves : Moves i hs s t) : t.AwakeAt j := by
  induction hmoves with
  | refl s => exact h
  | move hmove hrest ih => exact ih (h.move hqueue hij hmove) (hqueue.move hmove)
  | route hrun hrest ih => exact ih (h.route _) (hqueue.route _)

/-! ### The caller whose turn it is -/

theorem receipt?_eq_none {ticket : Nat} :
    s.receipt? ticket = none ↔ ∀ outcome, (ticket, outcome) ∉ s.receipts := by
  simp only [receipt?, Option.map_eq_none_iff, List.find?_eq_none, Prod.forall, beq_iff_eq]
  constructor
  · exact fun h outcome hmem => h ticket outcome hmem rfl
  · rintro h ticket' outcome hmem rfl
    exact h outcome hmem

theorem reply?_eq_none {waiter : Nat} :
    s.reply? waiter = none ↔ ∀ reply, (waiter, reply) ∉ s.replies := by
  simp only [reply?, Option.map_eq_none_iff, List.find?_eq_none, Prod.forall, beq_iff_eq]
  constructor
  · exact fun h reply hmem => h waiter reply hmem rfl
  · rintro h waiter' reply hmem rfl
    exact h reply hmem

/-- A call that cannot go on may sleep. -/
theorem AwakeAt.of_stuck (hcall : s.calls[j]? = some call) (hstuck : ¬ s.CanGoOn j call)
    (hexclusive : call.stage = .inLine → call.request.exclusive?.isSome = true) : s.AwakeAt j := by
  intro call' hcall'
  obtain rfl : call = call' := Option.some.inj (hcall.symm.trans hcall')
  exact ⟨fun hgo => absurd hgo hstuck, hexclusive⟩

theorem AwakeAt.setStage (hcall : s.calls[i]? = some call) {stage : Stage}
    (hne : stage ≠ .inLine) (hstuck : ¬ s.CanGoOn i (call.atStage stage)) :
    (s.setStage i stage).AwakeAt i :=
  .of_stuck (getElem?_setStage hcall stage) hstuck fun he => absurd he hne

/-- A call that is over may sleep for good. -/
theorem AwakeAt.of_over (hover : ∀ call, s.calls[j]? = some call → call.stage.isOver = true) :
    s.AwakeAt j := by
  intro call hcall
  have hdone := hover call hcall
  unfold CanGoOn
  cases hstage : call.stage with
  | ended time result => exact ⟨fun hgo => absurd hgo id, nofun⟩
  | dropped => exact ⟨fun hgo => absurd hgo id, nofun⟩
  | _ => simp [hstage, Stage.isOver] at hdone

theorem AwakeAt.takeDown (h : s.AwakeAt i) (hqueue : s.QueueSound) : s.takeDownIfUnused.AwakeAt i :=
  h.moves hqueue (Nat.succ_ne_self i) (moves_takeDownIfUnused (i + 1) s)

theorem AwakeAt.ended (s : Session) (i : Nat) (result : Except Error Outcome) :
    (s.finish i result).AwakeAt i := by
  refine .of_over fun call hcall => ?_
  rw [calls_finish, List.getElem?_modify_eq] at hcall
  obtain ⟨call', -, rfl⟩ := Option.map_eq_some_iff.1 hcall
  rfl

theorem AwakeAt.awaitReply (hcall : s.calls[i]? = some call) (waiter : Nat) :
    (s.awaitReply i call.request waiter).AwakeAt i := by
  rcases h : s.answer? call.request waiter with _ | result
  · have hreply := answer?_eq_none.1 h
    rw [awaitReply_of_none hreply]
    refine .setStage hcall nofun ?_
    rintro ⟨reply, hmem⟩
    exact reply?_eq_none.1 hreply reply hmem
  · rw [awaitReply_of_answer h]
    exact .ended s i result

theorem AwakeAt.awaitWrite (hcall : s.calls[i]? = some call) (ticket : Nat) (waiter : Option Nat) :
    (s.awaitWrite i call.request ticket waiter).AwakeAt i := by
  rcases h : s.report? call.request ticket waiter with _ | result
  · rcases awaitWrite_of_none (i := i) h with ⟨hreceipt, heq⟩ | ⟨w, -, -, hreply, heq⟩
    · rw [heq]
      refine .setStage hcall nofun ?_
      rintro ⟨outcome, hmem⟩
      exact receipt?_eq_none.1 hreceipt outcome hmem
    · rw [heq]
      refine .setStage hcall nofun ?_
      rintro ⟨reply, hmem⟩
      exact reply?_eq_none.1 hreply reply hmem
  · rw [awaitWrite_of_report h]
    exact .ended s i result

theorem AwakeAt.awaitPump (hcall : s.calls[i]? = some call) : (s.awaitPump i).AwakeAt i := by
  unfold Session.awaitPump
  split
  · exact .ended _ i _
  · exact .ended _ i _
  · rename_i hclosed hcut
    refine .setStage hcall nofun ?_
    intro hover
    change s.pumpState.isOver = true at hover
    cases hp : s.pumpState with
    | closed => exact hclosed hp
    | cutOff => exact hcut hp
    | running => simp [hp, PumpState.isOver] at hover
    | resting wakeAt => simp [hp, PumpState.isOver] at hover

/-- Nobody knows yet what will become of a frame that has just been queued. -/
theorem not_canGoOn_queued {ticket : Nat} (hfresh : ∀ outcome, (ticket, outcome) ∉ s.receipts)
    (request : Request) (waiter : Option Nat) :
    ¬ s.CanGoOn i (call.atStage (.queued request ticket waiter)) := by
  have hwrite : ¬ s.CanGoOn i (call.atStage (.forWrite ticket waiter)) :=
    fun ⟨outcome, hmem⟩ => hfresh outcome hmem
  cases request with
  | initiate command =>
    cases waiter with
    | none => exact hwrite
    | some waiter => exact id
  | _ => exact hwrite

theorem AwakeAt.submit (hqueue : s.QueueSound) (hcall : s.calls[i]? = some call)
    (hstage : call.stage = .inLine) (outstanding : Outstanding) (bytes : List UInt8)
    (waiter : Option Nat) :
    ({ s with outstanding }.submit i call.request bytes waiter).AwakeAt i := by
  unfold Session.submit Outbound.offer
  dsimp only
  split
  · exact .ended _ i _
  · rename_i hopen
    have hopen' : s.outbound.closed = false := by simpa using hopen
    split
    · obtain ⟨ready, heq, -, -⟩ := wake_eq
        { s with outstanding, outbound := s.outbound.push bytes } .pump
      rw [admitted_queued, heq]
      refine AwakeAt.takeDown ?_ (hqueue.modify_push hcall hstage hopen' bytes _ waiter)
      refine .setStage (?_ : _ = some call) (Stage.queued_ne_inLine _ _ _)
        (not_canGoOn_queued ?_ _ waiter)
      · exact hcall
      · exact Queued.fresh hqueue
    · refine .setStage hcall nofun ?_
      have hget := QueueSound.getElem?_places hcall
      have hnot := Queued.not_mem_callers hqueue hget (by rw [hstage]; exact nofun)
      rintro (hclosed | hgranted)
      · exact hopen hclosed
      · exact hnot (List.mem_append_left _ hgranted)

theorem AwakeAt.beginExchange (hqueue : s.QueueSound) (hcall : s.calls[i]? = some call)
    (hstage : call.stage = .inLine) (command : Command) :
    (s.beginExchange i call.request command).AwakeAt i := by
  unfold Session.beginExchange
  split
  · exact .ended s i _
  · split
    · exact .ended s i _
    · exact .submit hqueue hcall hstage _ _ _

theorem AwakeAt.queueOnly (hqueue : s.QueueSound) (hcall : s.calls[i]? = some call)
    (hstage : call.stage = .inLine) (command : Command) :
    (s.queueOnly i call.request command).AwakeAt i := by
  unfold Session.queueOnly
  split
  · exact .ended s i _
  · exact .submit hqueue hcall hstage s.outstanding _ _

theorem AwakeAt.beginShutdown (hcall : s.calls[i]? = some call) :
    (s.beginShutdown i).AwakeAt i := by
  obtain ⟨ready, heq, -, -⟩ :=
    wake_eq { s with lifecycle := s.lifecycle.stop.2, cancelled := true } .pump
  unfold Session.beginShutdown
  dsimp only
  rw [heq]
  split
  · refine .awaitPump (?_ : _ = some call)
    exact hcall
  · exact .ended _ i _

theorem AwakeAt.retry (hqueue : s.QueueSound) (hcall : s.calls[i]? = some call)
    {bytes : List UInt8} {waiter : Option Nat} (hstage : call.stage = .forSlot bytes waiter) :
    (s.advance i call).AwakeAt i := by
  have hself : s.setStage i (.forSlot bytes waiter) = s := by rw [← hstage, setStage_self hcall]
  simp only [advance, hstage, Outbound.retry]
  split
  · exact .ended _ i _
  · rename_i hopen
    have hopen' : s.outbound.closed = false := by simpa using hopen
    split
    · rename_i hgranted
      obtain ⟨ready, heq, -, -⟩ := wake_eq
        { s with
          outbound := { s.outbound with granted := s.outbound.granted.erase i }.push bytes } .pump
      rw [admitted_queued, heq]
      refine AwakeAt.takeDown ?_
        (hqueue.modify_redeem hcall hstage hopen' (by simpa using hgranted) bytes _ waiter)
      refine .setStage (?_ : _ = some call) (Stage.queued_ne_inLine _ _ _)
        (not_canGoOn_queued ?_ _ waiter)
      · exact hcall
      · exact Queued.fresh hqueue
    · rename_i hnot
      simp only [admitted, hself]
      refine .of_stuck hcall ?_ (by simp [hstage])
      unfold CanGoOn
      rw [hstage]
      rintro (hclosed | hgranted)
      · exact hopen hclosed
      · exact hnot (by simpa using hgranted)

theorem AwakeAt.advance (hqueue : s.QueueSound) (hcall : s.calls[i]? = some call)
    (hexclusive : call.stage = .inLine → call.request.exclusive?.isSome = true) :
    (s.advance i call).AwakeAt i := by
  have hstay : ¬ s.CanGoOn i call → s.AwakeAt i := fun hstuck => .of_stuck hcall hstuck hexclusive
  cases hstage : call.stage with
  | inLine =>
    obtain ⟨command, hcommand⟩ := Option.isSome_iff_exists.1 (hexclusive hstage)
    simp only [Session.advance, hstage, hcommand]
    split
    · exact .beginExchange hqueue hcall hstage command
    · rename_i hhead
      refine hstay ?_
      rwa [CanGoOn, hstage]
  | forSlot bytes waiter => exact .retry hqueue hcall hstage
  | forWrite ticket waiter =>
    simp only [Session.advance, hstage]
    exact .awaitWrite hcall ticket waiter
  | forReply waiter =>
    simp only [Session.advance, hstage]
    exact .awaitReply hcall waiter
  | forPump =>
    simp only [Session.advance, hstage]
    exact .awaitPump hcall
  | _ =>
    simp only [Session.advance, hstage]
    refine hstay ?_
    rw [CanGoOn, hstage]
    exact id

theorem AwakeAt.turn (hqueue : s.QueueSound)
    (hexclusive : ∀ call, s.calls[i]? = some call → call.stage = .inLine →
      call.request.exclusive?.isSome = true) : (s.turn i).AwakeAt i := by
  unfold Session.turn
  split
  · rename_i hnone
    intro call hcall
    rw [hnone] at hcall
    cases hcall
  · rename_i call hcall
    dsimp only
    split
    · exact .ended _ i _
    · exact .advance hqueue hcall (hexclusive call hcall)

/-! ### Every action -/

theorem AwakeAt.called (hqueue : s.QueueSound) (request : Request) :
    (s.call request).AwakeAt s.calls.length := by
  unfold Session.call
  dsimp only
  generalize (request.limit? s.settings.commandTimeout).map (s.now + ·) = deadline
  have hentered : Queued s.outbound s.receipts
      ((s.calls ++ [(⟨request, deadline, .inLine⟩ : Call)]).map (·.stage.place)) := by
    rw [List.map_append]
    exact Queued.enter hqueue
  have hcall : (s.calls ++ [(⟨request, deadline, .inLine⟩ : Call)])[s.calls.length]? =
      some ⟨request, deadline, .inLine⟩ := by simp
  have hturn : request.exclusive?.isSome = true → ∀ t : Session, t.QueueSound →
      t.calls = s.calls ++ [(⟨request, deadline, .inLine⟩ : Call)] →
      (t.turn s.calls.length).AwakeAt s.calls.length := by
    intro hexclusive t hsound hcalls
    refine .turn hsound fun call' hcall' _ => ?_
    rw [hcalls, hcall] at hcall'
    rw [← Option.some.inj hcall']
    exact hexclusive
  generalize ht : ({ s with
    calls := s.calls ++ [(⟨request, deadline, .inLine⟩ : Call)] }.setAlarm
      (.caller s.calls.length)) = t
  have hcalls : t.calls = s.calls ++ [(⟨request, deadline, .inLine⟩ : Call)] := by
    rw [← ht]
    rfl
  have hsound : t.QueueSound := by
    rw [← ht]
    exact hentered
  have hcall' : t.calls[s.calls.length]? = some ⟨request, deadline, .inLine⟩ := by
    rw [hcalls, hcall]
  cases request with
  | send command => exact .queueOnly hsound hcall' rfl command
  | initiate command => exact .beginExchange hsound hcall' rfl command
  | reset bootInDfu => exact .queueOnly hsound hcall' rfl (Instruction.systemReset bootInDfu).fixed
  | shutdown => exact .beginShutdown hcall'
  | exchange command limit => exact hturn rfl _ hsound hcalls
  | ask query => exact hturn rfl _ hsound hcalls

theorem AwakeAt.await (h : s.AwakeAt i) (hqueue : s.QueueSound) (limit : Option Nat) :
    (s.await i limit).AwakeAt i := by
  unfold Session.await
  split
  · rename_i ticket waiter hstage
    obtain ⟨call, hcall, hstage⟩ := Option.map_eq_some_iff.1 hstage
    refine .turn ?_ ?_
    · exact hqueue.modify_same hcall (by rw [hstage]; rfl)
    · intro call' hcall' hline
      have hget := getElem?_modify_self hcall fun (c : Call) =>
        { c with deadline := limit.map (s.now + ·), stage := .forWrite ticket (some waiter) }
      obtain rfl := Option.some.inj (hget.symm.trans hcall')
      cases hline
  · exact h

theorem AwakeAt.abandon (h : s.AwakeAt i) : (s.abandon i).AwakeAt i := by
  unfold Session.abandon
  split
  · exact h
  · exact h
  · exact h
  · rename_i stage _ _ hstage
    obtain ⟨ready, heq, -⟩ := relinquish_eq s i stage
    refine .of_over fun call hcall => ?_
    rw [calls_takeDownIfUnused, setStage_eq, heq, List.getElem?_modify_eq] at hcall
    obtain ⟨call', -, rfl⟩ := Option.map_eq_some_iff.1 hcall
    rfl

/-- Every action leaves whoever can go on with a reason to. -/
theorem awakeAt_of_step? (hqueue : s.QueueSound) (h : ∀ j, s.AwakeAt j)
    (hstep : s.step? action = some t) (j : Nat) : t.AwakeAt j := by
  by_cases hown : s.IsOwn j action
  · cases action with
    | call request =>
      obtain rfl : s.calls.length = j := hown
      simp only [step?] at hstep
      split at hstep
      · cases hstep
      · rw [← Option.some.inj hstep]
        exact .called hqueue request
    | await index limit =>
      obtain rfl : index = j := hown
      rw [← Option.some.inj hstep]
      exact (h index).await hqueue limit
    | abandon index =>
      obtain rfl : index = j := hown
      rw [← Option.some.inj hstep]
      exact (h index).abandon
    | turn index =>
      obtain rfl : index = j := hown
      rw [← Option.some.inj hstep]
      exact .turn hqueue fun call hcall => (h index call hcall).2
    | _ => exact absurd hown id
  · obtain ⟨i, hij, hactor⟩ := exists_isActor_ne hown
    exact AwakeAt.moves (s := { s with pump := s.pumpAfter action }) (h j) hqueue hij
      (moves_of_isActor hactor hstep)

/-- Whoever can go on has a reason to take a turn. -/
theorem awake_of_reachable (h : s.Reachable) (j : Nat) : s.AwakeAt j := by
  obtain ⟨settings, s₀, actions, h₀, hrun⟩ := h
  have hall : s.QueueSound ∧ ∀ j, s.AwakeAt j := by
    refine run?_induction (P := fun u => u.QueueSound ∧ ∀ j, u.AwakeAt j) ?_ hrun
      ⟨.ofSettings h₀, ?_⟩
    · rintro u action v ⟨hqueue, hawake⟩ hstep
      have hqueue' : QueueSound { u with pump := u.pumpAfter action } := hqueue
      exact ⟨hqueue'.moves (moves_of_step? hstep), awakeAt_of_step? hqueue hawake hstep⟩
    · obtain rfl := eq_of_ofSettings h₀
      intro j call hcall
      simp at hcall
  exact hall.2 j

end Session

end BleHost
