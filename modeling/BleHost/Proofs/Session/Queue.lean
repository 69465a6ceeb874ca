import BleHost.Proofs.Session.Life
import BleHost.Proofs.Session.Waiters

/-!
# The outbound queue and its callers

Each frame that a call has queued is in the queue or has a receipt, and each call that waits for a
slot is among the queue's callers, once, unless the queue is closed (`Queued`). Like the accounts of
waiters this is shown for each change that moves make: a call comes in, is served, blocked or
refused, takes its slot, goes away; the first frame is taken out, or the queue is closed.
-/

namespace BleHost

/-- What a call has to do with the outbound queue. -/
inductive Place
  | away
  /-- It waits for a slot. -/
  | slot
  /-- It has queued a frame and is to hear of it. -/
  | frame (ticket : Nat)
deriving DecidableEq

/-- What a stage has to do with the outbound queue. -/
def Stage.place : Stage → Place
  | forSlot _ _ => .slot
  | forWrite ticket _ | held ticket _ => .frame ticket
  | _ => .away

@[simp] theorem Stage.place_queued (request : Request) (ticket : Nat) (waiter : Option Nat) :
    (Stage.queued request ticket waiter).place = .frame ticket := by
  cases request <;> cases waiter <;> rfl

theorem Stage.place_of_isOver {stage : Stage} (h : stage.isOver = true) : stage.place = .away := by
  cases stage <;> first | rfl | cases h

namespace Outbound

variable {q : Outbound} {i j : Nat}

/-- The tickets of the frames in a queue. -/
def tickets (q : Outbound) : List Nat := q.queued.map (·.ticket)

/-- Those who wait at a queue, with a slot set aside or without one. -/
def callers (q : Outbound) : List Nat := q.granted ++ q.blocked

theorem grant_cases (q : Outbound) :
    q.grant = (none, q) ∨ ∃ caller blocked, q.blocked = caller :: blocked ∧
      q.grant = (some caller, { q with granted := q.granted ++ [caller], blocked }) := by
  unfold grant
  split
  · rename_i caller blocked hblocked
    split
    · exact .inr ⟨caller, blocked, hblocked, rfl⟩
    · exact .inl rfl
  · exact .inl rfl

/-- A free slot only moves on. -/
@[simp] theorem callers_grant (q : Outbound) : q.grant.2.callers = q.callers := by
  rcases q.grant_cases with h | ⟨caller, blocked, hblocked, h⟩
  · rw [h]
  · rw [h, callers, callers, hblocked, List.append_assoc]
    rfl

@[simp] theorem tickets_grant (q : Outbound) : q.grant.2.tickets = q.tickets := by
  rcases q.grant_cases with h | ⟨caller, blocked, hblocked, h⟩
  · rw [h]
  · rw [h]
    rfl

@[simp] theorem lastTicket_grant (q : Outbound) : q.grant.2.lastTicket = q.lastTicket := by
  rcases q.grant_cases with h | ⟨caller, blocked, hblocked, h⟩
  · rw [h]
  · rw [h]

/-- Whoever has a slot afterwards had one before, or is the one who is named. -/
theorem mem_granted_grant (h : j ∈ q.grant.2.granted) : j ∈ q.granted ∨ q.grant.1 = some j := by
  rcases q.grant_cases with hg | ⟨caller, blocked, hblocked, hg⟩
  · rw [hg] at h
    exact .inl h
  · rw [hg] at h ⊢
    rcases List.mem_append.1 h with h | h
    · exact .inl h
    · rw [List.mem_singleton.1 h]
      exact .inr rfl

end Outbound

/-! ### Frames and slots -/

/-- The frames that calls have queued, and the slots that they wait for. -/
structure Queued (q : Outbound) (receipts : List (Nat × Except Error Unit)) (places : List Place) :
    Prop where
  empty : q.closed = true → q.tickets = [] ∧ q.callers = []
  ticket_le : ∀ ticket ∈ q.tickets, ticket ≤ q.lastTicket
  receipt_le : ∀ r ∈ receipts, r.1 ≤ q.lastTicket
  reported : ∀ (i ticket : Nat), places[i]? = some (.frame ticket) →
    ticket ∈ q.tickets ∨ ∃ outcome, (ticket, outcome) ∈ receipts
  waits : ∀ i : Nat, places[i]? = some .slot → q.closed = true ∨ i ∈ q.callers
  seeks : ∀ i ∈ q.callers, places[i]? = some .slot
  distinct : q.callers.Nodup

namespace Queued

variable {q : Outbound} {receipts : List (Nat × Except Error Unit)} {places : List Place}
  {i : Nat} {place : Place}

theorem ofCapacity (capacity : Nat) : Queued (.ofCapacity capacity) [] [] where
  empty := nofun
  ticket_le := fun _ h => absurd h List.not_mem_nil
  receipt_le := nofun
  reported := by
    intro i ticket h
    simp at h
  waits := by
    intro i h
    simp at h
  seeks := fun _ h => absurd h List.not_mem_nil
  distinct := .nil

/-- The next ticket is a new one. -/
theorem fresh (h : Queued q receipts places) (outcome : Except Error Unit) :
    (q.lastTicket + 1, outcome) ∉ receipts := by
  intro hmem
  have hle := h.receipt_le _ hmem
  omega

/-- A call comes in. -/
theorem enter (h : Queued q receipts places) : Queued q receipts (places ++ [.away]) := by
  have hold : ∀ {i : Nat} {place : Place}, place ≠ .away → (places ++ [.away])[i]? = some place →
      places[i]? = some place := by
    intro i place hne hi
    rcases getElem?_append_cases hi with ⟨-, he⟩ | hi
    · exact absurd he hne
    · exact hi
  refine { h with reported := ?_, waits := ?_, seeks := ?_ }
  · exact fun i ticket hi => h.reported i ticket (hold nofun hi)
  · exact fun i hi => h.waits i (hold nofun hi)
  · intro i hi
    have hget := h.seeks i hi
    rwa [List.getElem?_append_left (List.getElem?_eq_some_iff.1 hget).1]

/-- Whoever is not waiting for a slot is not among the callers. -/
theorem not_mem_callers (h : Queued q receipts places) (hi : places[i]? = some place)
    (hne : place ≠ .slot) : i ∉ q.callers := by
  intro hmem
  rw [h.seeks i hmem] at hi
  exact hne (Option.some.inj hi).symm

/-- Somebody is no longer among the callers. -/
theorem without (h : Queued q receipts places) {q' : Outbound}
    (hclosed : q'.closed = q.closed) (htickets : q'.tickets = q.tickets)
    (hlast : q'.lastTicket = q.lastTicket) (hsub : List.Sublist q'.callers q.callers)
    (hmem : ∀ j, j ≠ i → j ∈ q.callers → j ∈ q'.callers) (hi : i ∉ q'.callers) :
    Queued q' receipts (places.set i .away) := by
  refine ⟨?_, ?_, ?_, ?_, ?_, ?_, h.distinct.sublist hsub⟩
  · intro hc
    rw [hclosed] at hc
    obtain ⟨htickets', hcallers⟩ := h.empty hc
    rw [hcallers] at hsub
    exact ⟨htickets.trans htickets', List.sublist_nil.1 hsub⟩
  · rw [htickets, hlast]
    exact h.ticket_le
  · rw [hlast]
    exact h.receipt_le
  · intro j ticket hj
    rw [htickets]
    rcases getElem?_set_cases hj with ⟨-, he⟩ | ⟨-, hj⟩
    · cases he
    · exact h.reported j ticket hj
  · intro j hj
    rw [hclosed]
    rcases getElem?_set_cases hj with ⟨-, he⟩ | ⟨hne, hj⟩
    · cases he
    · exact (h.waits j hj).imp_right (hmem j hne)
  · intro j hj
    have hij : i ≠ j := by
      rintro rfl
      exact hi hj
    rw [List.getElem?_set_ne hij, h.seeks j (hsub.mem hj)]

/-- A call that waits for no slot goes away. -/
theorem leave (h : Queued q receipts places) (hi : places[i]? = some place) (hne : place ≠ .slot) :
    Queued q receipts (places.set i .away) :=
  h.without rfl rfl rfl (List.Sublist.refl _) (fun _ _ hj => hj) (h.not_mem_callers hi hne)

/-- A frame is put behind the others. -/
theorem push (h : Queued q receipts places) (hi : places[i]? = some place) (hne : place ≠ .slot)
    (hopen : q.closed = false) (bytes : List UInt8) :
    Queued (q.push bytes) receipts (places.set i (.frame (q.lastTicket + 1))) := by
  have htickets : (q.push bytes).tickets = q.tickets ++ [q.lastTicket + 1] := by
    simp [Outbound.tickets, Outbound.push]
  refine ⟨?_, ?_, ?_, ?_, ?_, ?_, h.distinct⟩
  · intro hclosed
    rw [show (q.push bytes).closed = q.closed from rfl, hopen] at hclosed
    cases hclosed
  · intro ticket hticket
    rw [htickets] at hticket
    rcases List.mem_append.1 hticket with hticket | hticket
    · exact Nat.le_succ_of_le (h.ticket_le ticket hticket)
    · exact Nat.le_of_eq (List.mem_singleton.1 hticket)
  · exact fun r hr => Nat.le_succ_of_le (h.receipt_le r hr)
  · intro j ticket hj
    rw [htickets]
    rcases getElem?_set_cases hj with ⟨-, he⟩ | ⟨-, hj⟩
    · obtain rfl := Place.frame.inj he
      exact .inl (List.mem_append_right _ (List.mem_singleton_self _))
    · exact (h.reported j ticket hj).imp_left (List.mem_append_left _)
  · intro j hj
    rcases getElem?_set_cases hj with ⟨-, he⟩ | ⟨-, hj⟩
    · cases he
    · exact h.waits j hj
  · intro j hj
    have hij : i ≠ j := by
      rintro rfl
      exact h.not_mem_callers hi hne hj
    rw [List.getElem?_set_ne hij, h.seeks j hj]

/-- There is no slot for a frame. -/
theorem block (h : Queued q receipts places) (hi : places[i]? = some place) (hne : place ≠ .slot)
    (hopen : q.closed = false) :
    Queued { q with blocked := q.blocked ++ [i] } receipts (places.set i .slot) := by
  have hlt := (List.getElem?_eq_some_iff.1 hi).1
  have hcallers : ({ q with blocked := q.blocked ++ [i] } : Outbound).callers =
      q.callers ++ [i] := (List.append_assoc _ _ _).symm
  refine ⟨?_, h.ticket_le, h.receipt_le, ?_, ?_, ?_, ?_⟩
  · intro hclosed
    rw [show ({ q with blocked := q.blocked ++ [i] } : Outbound).closed = q.closed from rfl,
      hopen] at hclosed
    cases hclosed
  · intro j ticket hj
    rcases getElem?_set_cases hj with ⟨-, he⟩ | ⟨-, hj⟩
    · cases he
    · exact h.reported j ticket hj
  · intro j hj
    rw [hcallers]
    rcases getElem?_set_cases hj with ⟨rfl, -⟩ | ⟨-, hj⟩
    · exact .inr (List.mem_append_right _ (List.mem_singleton_self _))
    · exact (h.waits j hj).imp_right (List.mem_append_left _)
  · intro j hj
    rw [hcallers] at hj
    by_cases hij : i = j
    · subst hij
      rw [List.getElem?_set_self hlt]
    · rw [List.getElem?_set_ne hij]
      rcases List.mem_append.1 hj with hj | hj
      · exact h.seeks j hj
      · exact absurd (List.mem_singleton.1 hj).symm hij
  · rw [hcallers]
    refine List.nodup_append.2 ⟨h.distinct, List.pairwise_singleton _ _, ?_⟩
    intro j hj k hk
    rw [List.mem_singleton.1 hk]
    rintro rfl
    exact h.not_mem_callers hi hne hj

/-- A closed queue takes no frame. -/
theorem refuse (h : Queued q receipts places) (hclosed : q.closed = true) :
    Queued q receipts (places.set i .slot) := by
  refine { h with reported := ?_, waits := fun _ _ => .inl hclosed, seeks := ?_ }
  · intro j ticket hj
    rcases getElem?_set_cases hj with ⟨-, he⟩ | ⟨-, hj⟩
    · cases he
    · exact h.reported j ticket hj
  · intro j hj
    rw [(h.empty hclosed).2] at hj
    exact absurd hj List.not_mem_nil

/-- A caller takes the slot that has been set aside for it. -/
theorem redeem (h : Queued q receipts places) (hi : places[i]? = some .slot)
    (hopen : q.closed = false) (hgranted : i ∈ q.granted) (bytes : List UInt8) :
    Queued ({ q with granted := q.granted.erase i }.push bytes) receipts
      (places.set i (.frame (q.lastTicket + 1))) := by
  have hcallers : ({ q with granted := q.granted.erase i } : Outbound).callers =
      q.callers.erase i := (List.erase_append_left q.blocked hgranted).symm
  have hfree : Queued { q with granted := q.granted.erase i } receipts (places.set i .away) := by
    refine h.without rfl rfl rfl ?_ ?_ ?_
    · rw [hcallers]
      exact List.erase_sublist
    · intro j hne hj
      rw [hcallers]
      exact (List.mem_erase_of_ne hne).2 hj
    · rw [hcallers]
      exact h.distinct.not_mem_erase
  have haway : (places.set i .away)[i]? = some .away :=
    List.getElem?_set_self (List.getElem?_eq_some_iff.1 hi).1
  have hpush := hfree.push haway nofun hopen bytes
  rwa [List.set_set] at hpush

theorem grant (h : Queued q receipts places) : Queued q.grant.2 receipts places where
  empty := by
    rw [Outbound.closed_grant, Outbound.tickets_grant, Outbound.callers_grant]
    exact h.empty
  ticket_le := by
    rw [Outbound.tickets_grant, Outbound.lastTicket_grant]
    exact h.ticket_le
  receipt_le := by
    rw [Outbound.lastTicket_grant]
    exact h.receipt_le
  reported := by
    rw [Outbound.tickets_grant]
    exact h.reported
  waits := by
    rw [Outbound.closed_grant, Outbound.callers_grant]
    exact h.waits
  seeks := by
    rw [Outbound.callers_grant]
    exact h.seeks
  distinct := by
    rw [Outbound.callers_grant]
    exact h.distinct

/-- A caller gives up its place at the queue. -/
theorem withdraw (h : Queued q receipts places) :
    Queued (q.withdraw i).2 receipts (places.set i .away) := by
  have hparts := List.nodup_append.1 h.distinct
  have hout : i ∉ q.granted.erase i ++ q.blocked.erase i := by
    intro hi
    rcases List.mem_append.1 hi with hi | hi
    · exact hparts.1.not_mem_erase hi
    · exact hparts.2.1.not_mem_erase hi
  have hmem : ∀ j, j ≠ i → j ∈ q.callers → j ∈ q.granted.erase i ++ q.blocked.erase i := by
    intro j hne hj
    rcases List.mem_append.1 hj with hj | hj
    · exact List.mem_append_left _ ((List.mem_erase_of_ne hne).2 hj)
    · exact List.mem_append_right _ ((List.mem_erase_of_ne hne).2 hj)
  have hgone : Queued { q with granted := q.granted.erase i, blocked := q.blocked.erase i } receipts
      (places.set i .away) :=
    h.without rfl rfl rfl (List.erase_sublist.append List.erase_sublist) hmem hout
  exact hgone.grant

/-- The first frame is taken out, and its caller hears of it. -/
theorem pop (h : Queued q receipts places) {frame : Outgoing} {frames : List Outgoing}
    (hqueued : q.queued = frame :: frames) (outcome : Except Error Unit) :
    Queued q.pop.2 (receipts ++ [(frame.ticket, outcome)]) places := by
  have htickets : q.tickets =
      frame.ticket :: ({ q with queued := q.queued.tail } : Outbound).tickets := by
    simp [Outbound.tickets, hqueued]
  have htail : Queued { q with queued := q.queued.tail }
      (receipts ++ [(frame.ticket, outcome)]) places := by
    refine ⟨?_, ?_, ?_, ?_, h.waits, h.seeks, h.distinct⟩
    · intro hclosed
      have hnone := (h.empty hclosed).1
      rw [htickets] at hnone
      cases hnone
    · intro ticket hticket
      exact h.ticket_le ticket (htickets ▸ List.mem_cons_of_mem _ hticket)
    · intro r hr
      rcases List.mem_append.1 hr with hr | hr
      · exact h.receipt_le r hr
      · rw [List.mem_singleton.1 hr]
        exact h.ticket_le frame.ticket (htickets ▸ List.mem_cons_self)
    · intro i ticket hi
      rcases h.reported i ticket hi with hmem | ⟨outcome', hmem⟩
      · rw [htickets] at hmem
        rcases List.mem_cons.1 hmem with rfl | hmem
        · exact .inr ⟨outcome, List.mem_append_right _ (List.mem_singleton_self _)⟩
        · exact .inl hmem
      · exact .inr ⟨outcome', List.mem_append_left _ hmem⟩
  exact htail.grant

/-- The queue is closed, and whoever has a frame in it hears of that. -/
theorem close (h : Queued q receipts places) :
    Queued q.close (receipts ++ Session.lastReceipts q) places where
  empty := fun _ => ⟨rfl, rfl⟩
  ticket_le := fun _ hticket => absurd hticket List.not_mem_nil
  receipt_le := by
    intro r hr
    rcases List.mem_append.1 hr with hr | hr
    · exact h.receipt_le r hr
    · obtain ⟨o, ho, rfl⟩ := List.mem_map.1 hr
      exact h.ticket_le o.ticket (List.mem_map_of_mem ho)
  reported := by
    intro i ticket hi
    rcases h.reported i ticket hi with hmem | ⟨outcome, hmem⟩
    · obtain ⟨o, ho, rfl⟩ := List.mem_map.1 hmem
      exact .inr ⟨.error .dead, List.mem_append_right _ (List.mem_map.2 ⟨o, ho, rfl⟩)⟩
    · exact .inr ⟨outcome, List.mem_append_left _ hmem⟩
  waits := fun _ _ => .inl rfl
  seeks := fun _ hj => absurd hj List.not_mem_nil
  distinct := .nil

end Queued

/-! ### Moves keep frames and slots -/

namespace Session

variable {i : Nat} {s t : Session} {call : Call} {hs : List (Session × Frame)}

/-- Whatever calls have to do with the outbound queue is in order. -/
def QueueSound (s : Session) : Prop :=
  Queued s.outbound s.receipts (s.calls.map (·.stage.place))

namespace QueueSound

theorem getElem?_places (hcall : s.calls[i]? = some call) :
    (s.calls.map (·.stage.place))[i]? = some call.stage.place := by
  rw [List.getElem?_map, hcall, Option.map_some]

/-- A call that is still where it was. -/
theorem modify_same (h : s.QueueSound) (hcall : s.calls[i]? = some call) {f : Call → Call}
    (hf : (f call).stage.place = call.stage.place) :
    Queued s.outbound s.receipts ((s.calls.modify i f).map (·.stage.place)) := by
  obtain ⟨hlt, hget⟩ := List.getElem?_eq_some_iff.1 (getElem?_places hcall)
  rw [map_modify _ _ hcall, hf, ← hget, List.set_getElem_self hlt]
  exact h

/-- A call that has nothing to do with the queue any more. -/
theorem modify_away (h : s.QueueSound) (hcall : s.calls[i]? = some call) {stage : Stage}
    (hstage : stage.place = .away) :
    Queued (withoutCaller s.outbound i call.stage).2 s.receipts
      ((s.calls.modify i (·.atStage stage)).map (·.stage.place)) := by
  have hget := getElem?_places hcall
  rw [map_modify _ _ hcall, Call.stage_atStage, hstage]
  cases hs : call.stage with
  | forSlot bytes waiter => exact Queued.withdraw h
  | _ =>
    rw [hs] at hget
    exact Queued.leave h hget nofun

/-- A call that has queued its frame. -/
theorem modify_push (h : s.QueueSound) (hcall : s.calls[i]? = some call)
    (hstage : call.stage = .inLine) (hopen : s.outbound.closed = false) (bytes : List UInt8)
    (request : Request) (waiter : Option Nat) :
    Queued (s.outbound.push bytes) s.receipts
      ((s.calls.modify i
        (·.atStage (.queued request (s.outbound.lastTicket + 1) waiter))).map (·.stage.place)) := by
  rw [map_modify _ _ hcall, Call.stage_atStage, Stage.place_queued]
  exact Queued.push h (getElem?_places hcall) (by rw [hstage]; exact nofun) hopen bytes

/-- A call that has queued its frame in the slot that was set aside for it. -/
theorem modify_redeem (h : s.QueueSound) (hcall : s.calls[i]? = some call) {frame : List UInt8}
    {awaiter : Option Nat} (hstage : call.stage = .forSlot frame awaiter)
    (hopen : s.outbound.closed = false) (hgranted : i ∈ s.outbound.granted) (bytes : List UInt8)
    (request : Request) (waiter : Option Nat) :
    Queued ({ s.outbound with granted := s.outbound.granted.erase i }.push bytes) s.receipts
      ((s.calls.modify i
        (·.atStage (.queued request (s.outbound.lastTicket + 1) waiter))).map (·.stage.place)) := by
  have hget := getElem?_places hcall
  rw [hstage] at hget
  rw [map_modify _ _ hcall, Call.stage_atStage, Stage.place_queued]
  exact Queued.redeem h hget hopen hgranted bytes

theorem move (h : s.QueueSound) (hmove : Move i s t) : t.QueueSound := by
  cases hmove with
  | enter request deadline hi =>
    unfold QueueSound
    rw [List.map_append]
    exact Queued.enter h
  | queue hcall hstage hturn hlive hclaims hopen hroom hready =>
    exact h.modify_push hcall hstage hopen _ _ _
  | block hcall hstage hturn hlive hclaims hopen hroom =>
    unfold QueueSound
    rw [map_modify _ _ hcall, Call.stage_atStage]
    exact Queued.block h (getElem?_places hcall) (by rw [hstage]; exact nofun) hopen
  | refuse bytes hcall hstage hturn hlive hclaims hclosed =>
    unfold QueueSound
    rw [map_modify _ _ hcall, Call.stage_atStage]
    exact Queued.refuse h hclosed
  | retry hcall hstage hopen hgranted hready =>
    exact h.modify_redeem hcall hstage hopen hgranted _ _ _
  | @expect call ticket waiter hcall hstage hreceipt hreply =>
    have haway : Queued (withoutCaller s.outbound i call.stage).2 s.receipts
      ((s.calls.modify i (·.atStage (.forReply waiter))).map (·.stage.place)) :=
        h.modify_away hcall rfl
    rw [hstage] at haway
    exact haway
  | await hcall hstage => exact h.modify_same hcall (by rw [hstage]; rfl)
  | waitForPump hcall hstage hrequest hrun => exact h.modify_same hcall (by rw [hstage]; rfl)
  | finish hcall hgoing hover hready =>
    exact h.modify_away hcall (Stage.place_of_isOver (isOver_of_finished hover))
  | cutOff hdown hsilent hneed hready => exact Queued.close h
  | wrote outcome hpump hrun hqueued hready => exact Queued.pop h hqueued outcome
  | conclude hpump hrun hstops hready => exact Queued.close h
  | breakOff hpump hrun hb hready => exact Queued.close h
  | _ => exact h

theorem route (h : s.QueueSound) (frame : Frame) : (s.route frame).QueueSound := by
  obtain ⟨outstanding, news, hub, ready, heq, -⟩ := route_eq s frame
  rw [heq]
  exact h

theorem moves (h : s.QueueSound) (hmoves : Moves i hs s t) : t.QueueSound := by
  induction hmoves with
  | refl s => exact h
  | move hmove hrest ih => exact ih (h.move hmove)
  | route hrun hrest ih => exact ih (h.route _)

theorem ofSettings {settings : Settings} (h : ofSettings settings = .ok s) : s.QueueSound := by
  obtain rfl := eq_of_ofSettings h
  exact Queued.ofCapacity _

theorem of_reachable (h : s.Reachable) : s.QueueSound :=
  h.induction (fun _ _ => ofSettings) (fun _ _ h => h) fun _ _ _ _ h => h.moves

end QueueSound

end Session

end BleHost
