import BleHost.Proofs.Session.Awake
import Mathlib.Data.List.Nodup

/-!
# Tickets

Tickets go up by one with each frame that is queued, and receipts are given in that order: those
that have a receipt come before those that are still in the queue (`TicketsSound.numbered`). So what
has become of the frame of a call (`Session.written?`) is known from its ticket, and does not change
any more once it is known. A call whose response is awaited has the frame of its own command in the
queue.
-/

namespace BleHost

namespace Outbound

variable {q : Outbound}

@[simp] theorem queued_grant (q : Outbound) : q.grant.2.queued = q.queued := by
  rcases q.grant_cases with h | ⟨caller, blocked, hblocked, h⟩
  · rw [h]
  · rw [h]

@[simp] theorem queued_pop (q : Outbound) : q.pop.2.queued = q.queued.tail :=
  queued_grant { q with queued := q.queued.tail }

@[simp] theorem lastTicket_pop (q : Outbound) : q.pop.2.lastTicket = q.lastTicket :=
  lastTicket_grant { q with queued := q.queued.tail }

/-- The first ticket, and those of the frames behind it. -/
theorem tickets_eq_cons {frame : Outgoing} {frames : List Outgoing}
    (h : q.queued = frame :: frames) : q.tickets = frame.ticket :: q.pop.2.tickets := by
  rw [tickets, tickets, queued_pop, h, List.map_cons, List.tail_cons]

end Outbound

namespace Session

variable {i j : Nat} {s t : Session} {call call' : Call} {hs : List (Session × Frame)}
  {ticket : Nat}

@[simp] theorem queued_withoutCaller (q : Outbound) (index : Nat) (stage : Stage) :
    (withoutCaller q index stage).2.queued = q.queued := by
  cases stage with
  | forSlot bytes waiter =>
    exact Outbound.queued_grant
      { q with granted := q.granted.erase index, blocked := q.blocked.erase index }
  | _ => rfl

@[simp] theorem lastTicket_withoutCaller (q : Outbound) (index : Nat) (stage : Stage) :
    (withoutCaller q index stage).2.lastTicket = q.lastTicket := by
  cases stage with
  | forSlot bytes waiter =>
    exact Outbound.lastTicket_grant
      { q with granted := q.granted.erase index, blocked := q.blocked.erase index }
  | _ => rfl

theorem Claims.sends {request : Request} {bytes : List UInt8} {outstanding : Outstanding}
    {waiter : Option Nat} (h : s.Claims request bytes outstanding waiter) :
    request ≠ .shutdown := by
  cases h with
  | nothing hnone hsends => exact hsends
  | waiter hcommand hr =>
    rintro rfl
    cases hcommand

theorem Claims.bytes_eq {request : Request} {bytes : List UInt8} {outstanding : Outstanding}
    {waiter : Option Nat} (h : s.Claims request bytes outstanding waiter) {command : Command}
    (hcommand : request.awaited? = some command) : bytes = command.bytes := by
  cases h with
  | nothing hnone hsends =>
    rw [hnone] at hcommand
    cases hcommand
  | waiter hcommand' hr =>
    rw [hcommand'] at hcommand
    rw [Option.some.inj hcommand]

/-! ### Tickets are in order -/

/-- No call has a ticket that has not been given out. -/
theorem QueueSound.place_le (h : s.QueueSound) (hcall : s.calls[j]? = some call)
    (hplace : call.stage.place = .frame ticket) : ticket ≤ s.outbound.lastTicket := by
  have hget := QueueSound.getElem?_places hcall
  rw [hplace] at hget
  rcases h.reported j ticket hget with hmem | ⟨outcome, hmem⟩
  · exact h.ticket_le ticket hmem
  · exact h.receipt_le _ hmem

/-- Whose frames the tickets belong to, and which have been dealt with. -/
structure TicketsSound (s : Session) : Prop where
  numbered : s.receipts.map (·.1) ++ s.outbound.tickets = List.range' 1 s.outbound.lastTicket
  distinct : ∀ (i j : Nat) (call call' : Call) (ticket : Nat), s.calls[i]? = some call →
    s.calls[j]? = some call' → call.stage.place = .frame ticket →
    call'.stage.place = .frame ticket → i = j
  carried : ∀ (j : Nat) (call : Call) (bytes : List UInt8) (waiter : Option Nat)
    (command : Command), s.calls[j]? = some call → call.stage = .forSlot bytes waiter →
    call.request.awaited? = some command → bytes = command.bytes
  own : ∀ o ∈ s.outbound.queued, ∀ (j : Nat) (call : Call) (command : Command),
    s.calls[j]? = some call → call.stage.place = .frame o.ticket →
    call.request.awaited? = some command → o.bytes = command.bytes
  sends : ∀ (j : Nat) (call : Call), s.calls[j]? = some call → call.stage.place ≠ .away →
    call.request ≠ .shutdown

namespace TicketsSound

/-- A call goes on without a new ticket. -/
theorem modify (h : s.TicketsSound) (hcall : s.calls[i]? = some call) {f : Call → Call}
    (hrequest : (f call).request = call.request)
    (hplace : ∀ ticket, (f call).stage.place = .frame ticket → call.stage.place = .frame ticket)
    (hcarried : ∀ bytes waiter command, (f call).stage = .forSlot bytes waiter →
      call.request.awaited? = some command → bytes = command.bytes)
    (hsends : (f call).stage.place ≠ .away → call.request ≠ .shutdown)
    (hcalls : t.calls = s.calls.modify i f) (hreceipts : t.receipts = s.receipts)
    (hqueued : t.outbound.queued = s.outbound.queued)
    (hlast : t.outbound.lastTicket = s.outbound.lastTicket) : t.TicketsSound := by
  have htickets : t.outbound.tickets = s.outbound.tickets := by
    rw [Outbound.tickets, Outbound.tickets, hqueued]
  -- whoever has a ticket afterwards has had it before, for the same request
  have hold : ∀ {j : Nat} {call' : Call} {ticket : Nat}, t.calls[j]? = some call' →
      call'.stage.place = .frame ticket → ∃ call'', s.calls[j]? = some call'' ∧
        call''.stage.place = .frame ticket ∧ call''.request = call'.request := by
    intro j call' ticket hj hticket
    rw [hcalls] at hj
    rcases getElem?_modify_cases hcall hj with ⟨rfl, rfl⟩ | ⟨-, hj⟩
    · exact ⟨call, hcall, hplace ticket hticket, hrequest.symm⟩
    · exact ⟨call', hj, hticket, rfl⟩
  constructor
  · rw [hreceipts, htickets, hlast, h.numbered]
  · intro j k first second ticket hj hk hticket hticket'
    obtain ⟨first', hj', hfirst, -⟩ := hold hj hticket
    obtain ⟨second', hk', hsecond, -⟩ := hold hk hticket'
    exact h.distinct j k first' second' ticket hj' hk' hfirst hsecond
  · intro j call' bytes waiter command hj hstage hcommand
    rw [hcalls] at hj
    rcases getElem?_modify_cases hcall hj with ⟨rfl, rfl⟩ | ⟨-, hj⟩
    · exact hcarried bytes waiter command hstage (hrequest ▸ hcommand)
    · exact h.carried j call' bytes waiter command hj hstage hcommand
  · intro o ho j call' command hj hticket hcommand
    rw [hqueued] at ho
    obtain ⟨call'', hj', hticket', hsame⟩ := hold hj hticket
    exact h.own o ho j call'' command hj' hticket' (hsame ▸ hcommand)
  · intro j call' hj hplace'
    rw [hcalls] at hj
    rcases getElem?_modify_cases hcall hj with ⟨rfl, rfl⟩ | ⟨-, hj⟩
    · exact hrequest ▸ hsends hplace'
    · exact h.sends j call' hj hplace'

/-- A call has nothing more to do with the queue. -/
theorem leave (h : s.TicketsSound) (hcall : s.calls[i]? = some call) {stage : Stage}
    (hstage : stage.place = .away) (hcalls : t.calls = s.calls.modify i (·.atStage stage))
    (hreceipts : t.receipts = s.receipts) (hqueued : t.outbound.queued = s.outbound.queued)
    (hlast : t.outbound.lastTicket = s.outbound.lastTicket) : t.TicketsSound := by
  refine h.modify hcall rfl ?_ ?_ (absurd hstage) hcalls hreceipts hqueued hlast
  · intro ticket hplace
    rw [Call.stage_atStage, hstage] at hplace
    cases hplace
  · intro bytes waiter command hslot hcommand
    rw [Call.stage_atStage] at hslot
    rw [hslot] at hstage
    cases hstage

/-- A call waits for a slot. -/
theorem block (h : s.TicketsSound) (hcall : s.calls[i]? = some call) {bytes : List UInt8}
    {waiter : Option Nat}
    (hbytes : ∀ command, call.request.awaited? = some command → bytes = command.bytes)
    (hsends : call.request ≠ .shutdown)
    (hcalls : t.calls = s.calls.modify i (·.atStage (.forSlot bytes waiter)))
    (hreceipts : t.receipts = s.receipts) (hqueued : t.outbound.queued = s.outbound.queued)
    (hlast : t.outbound.lastTicket = s.outbound.lastTicket) : t.TicketsSound := by
  refine h.modify hcall rfl ?_ ?_ (fun _ => hsends) hcalls hreceipts hqueued hlast
  · intro ticket hplace
    cases hplace
  · intro carried waiter' command hslot hcommand
    obtain ⟨rfl, -⟩ := Stage.forSlot.inj hslot
    exact hbytes command hcommand

/-- A call gets the next ticket for its frame. -/
theorem push (h : s.TicketsSound) (hqueue : s.QueueSound) (hcall : s.calls[i]? = some call)
    {stage : Stage} {bytes : List UInt8} (hplace : stage.place = .frame (s.outbound.lastTicket + 1))
    (hbytes : ∀ command, call.request.awaited? = some command → bytes = command.bytes)
    (hsends : call.request ≠ .shutdown)
    (hcalls : t.calls = s.calls.modify i (·.atStage stage)) (hreceipts : t.receipts = s.receipts)
    (hqueued : t.outbound.queued = s.outbound.queued ++ [⟨s.outbound.lastTicket + 1, bytes⟩])
    (hlast : t.outbound.lastTicket = s.outbound.lastTicket + 1) : t.TicketsSound := by
  have htickets : t.outbound.tickets = s.outbound.tickets ++ [s.outbound.lastTicket + 1] := by
    rw [Outbound.tickets, Outbound.tickets, hqueued, List.map_append]
    rfl
  -- the call has the new ticket, and any other ticket is older
  have hold : ∀ {j : Nat} {call' : Call} {ticket : Nat}, t.calls[j]? = some call' →
      call'.stage.place = .frame ticket →
      j = i ∧ call' = call.atStage stage ∧ ticket = s.outbound.lastTicket + 1 ∨
        s.calls[j]? = some call' ∧ ticket ≤ s.outbound.lastTicket := by
    intro j call' ticket hj hticket
    rw [hcalls] at hj
    rcases getElem?_modify_cases hcall hj with ⟨rfl, rfl⟩ | ⟨-, hj⟩
    · rw [Call.stage_atStage, hplace] at hticket
      exact .inl ⟨rfl, rfl, (Place.frame.inj hticket).symm⟩
    · exact .inr ⟨hj, hqueue.place_le hj hticket⟩
  constructor
  · rw [hreceipts, htickets, hlast, ← List.append_assoc, h.numbered, List.range'_1_concat,
      Nat.add_comm 1]
  · intro j k first second ticket hj hk hticket hticket'
    rcases hold hj hticket with ⟨rfl, -, hnew⟩ | ⟨hj, hle⟩
    · rcases hold hk hticket' with ⟨rfl, -, -⟩ | ⟨-, hle⟩
      · rfl
      · omega
    · rcases hold hk hticket' with ⟨-, -, hnew⟩ | ⟨hk, -⟩
      · omega
      · exact h.distinct j k first second ticket hj hk hticket hticket'
  · intro j call' carried waiter command hj hstage hcommand
    rw [hcalls] at hj
    rcases getElem?_modify_cases hcall hj with ⟨rfl, rfl⟩ | ⟨-, hj⟩
    · rw [Call.stage_atStage] at hstage
      rw [hstage] at hplace
      cases hplace
    · exact h.carried j call' carried waiter command hj hstage hcommand
  · intro o ho j call' command hj hticket hcommand
    rw [hqueued] at ho
    rcases List.mem_append.1 ho with ho | ho
    · rcases hold hj hticket with ⟨-, -, hnew⟩ | ⟨hj, -⟩
      · have hle := hqueue.ticket_le o.ticket (List.mem_map_of_mem ho)
        omega
      · exact h.own o ho j call' command hj hticket hcommand
    · obtain rfl := List.mem_singleton.1 ho
      rcases hold hj hticket with ⟨-, rfl, -⟩ | ⟨-, hle⟩
      · exact hbytes command hcommand
      · exact absurd hle (Nat.not_succ_le_self _)
  · intro j call' hj hplace'
    rw [hcalls] at hj
    rcases getElem?_modify_cases hcall hj with ⟨rfl, rfl⟩ | ⟨-, hj⟩
    · exact hsends
    · exact h.sends j call' hj hplace'

/-- Frames are taken out of the queue and get their receipts. -/
theorem report (h : s.TicketsSound) (hcalls : t.calls = s.calls)
    (hnumbered : t.receipts.map (·.1) ++ t.outbound.tickets =
      s.receipts.map (·.1) ++ s.outbound.tickets)
    (hqueued : t.outbound.queued ⊆ s.outbound.queued)
    (hlast : t.outbound.lastTicket = s.outbound.lastTicket) : t.TicketsSound where
  numbered := by rw [hnumbered, hlast, h.numbered]
  distinct := by
    rw [hcalls]
    exact h.distinct
  carried := by
    rw [hcalls]
    exact h.carried
  own := by
    rw [hcalls]
    exact fun o ho => h.own o (hqueued ho)
  sends := by
    rw [hcalls]
    exact h.sends

/-- The queue is closed, and whatever was in it gets its receipt. -/
theorem close (h : s.TicketsSound) (hcalls : t.calls = s.calls)
    (hreceipts : t.receipts = s.receipts ++ lastReceipts s.outbound)
    (hout : t.outbound = s.outbound.close) : t.TicketsSound := by
  refine h.report hcalls ?_ ?_ ?_
  · rw [hreceipts, hout, List.map_append, lastReceipts, List.map_map]
    exact List.append_nil _
  · rw [hout]
    exact List.nil_subset _
  · rw [hout]
    rfl

theorem move (h : s.TicketsSound) (hqueue : s.QueueSound) (hmove : Move i s t) :
    t.TicketsSound := by
  cases hmove with
  | enter request deadline hi =>
    have hold : ∀ {j : Nat} {call : Call},
        (s.calls ++ [⟨request, deadline, .inLine⟩])[j]? = some call →
        call.stage ≠ .inLine → s.calls[j]? = some call := by
      intro j call hj hne
      rcases getElem?_append_cases hj with ⟨-, rfl⟩ | hj
      · exact absurd rfl hne
      · exact hj
    have hframe : ∀ {call : Call} {ticket : Nat}, call.stage.place = .frame ticket →
        call.stage ≠ .inLine := by
      intro call ticket hplace hstage
      rw [hstage] at hplace
      cases hplace
    refine ⟨h.numbered, ?_, ?_, ?_, ?_⟩
    · intro j k first second ticket hj hk hticket hticket'
      exact h.distinct j k first second ticket (hold hj (hframe hticket))
        (hold hk (hframe hticket')) hticket hticket'
    · intro j call bytes waiter command hj hstage hcommand
      exact h.carried j call bytes waiter command (hold hj (by rw [hstage]; exact nofun)) hstage
        hcommand
    · intro o ho j call command hj hticket hcommand
      exact h.own o ho j call command (hold hj (hframe hticket)) hticket hcommand
    · intro j call hj hplace
      refine h.sends j call (hold hj ?_) hplace
      intro hstage
      rw [hstage] at hplace
      exact hplace rfl
  | queue hcall hstage hturn hlive hclaims hopen hroom hready =>
    exact h.push hqueue hcall (Stage.place_queued ..) (fun _ => hclaims.bytes_eq) hclaims.sends rfl
      rfl rfl rfl
  | block hcall hstage hturn hlive hclaims hopen hroom =>
    exact h.block hcall (fun _ => hclaims.bytes_eq) hclaims.sends rfl rfl rfl rfl
  | refuse bytes hcall hstage hturn hlive hclaims hclosed =>
    exact h.block hcall (fun _ => hclaims.bytes_eq) hclaims.sends rfl rfl rfl rfl
  | @retry call bytes waiter ready hcall hstage hopen hgranted hready =>
    exact h.push hqueue hcall (Stage.place_queued ..)
      (fun command => h.carried i call bytes waiter command hcall hstage)
      (h.sends i call hcall (by rw [hstage]; exact nofun)) rfl rfl rfl rfl
  | expect hcall hstage hreceipt hreply => exact h.leave hcall rfl rfl rfl rfl rfl
  | await hcall hstage =>
    refine h.modify hcall rfl ?_ ?_ ?_ rfl rfl rfl rfl
    · rw [hstage]
      exact fun _ hplace => hplace
    · intro bytes waiter command hslot hcommand
      cases hslot
    · exact fun _ => h.sends i _ hcall (by rw [hstage]; exact nofun)
  | waitForPump hcall hstage hrequest hrun => exact h.leave hcall rfl rfl rfl rfl rfl
  | finish hcall hgoing hover hready =>
    exact h.leave hcall (Stage.place_of_isOver (isOver_of_finished hover)) rfl rfl
      (queued_withoutCaller ..) (lastTicket_withoutCaller ..)
  | cutOff hdown hsilent hneed hready hopen => exact h.close rfl rfl rfl
  | wrote outcome hpump hrun hqueued hready =>
    refine h.report rfl ?_ ?_ (Outbound.lastTicket_pop _)
    · show List.map _ (_ ++ [_]) ++ _ = _
      rw [Outbound.tickets_eq_cons hqueued, List.map_append, List.append_assoc]
      rfl
    · show s.outbound.pop.2.queued ⊆ _
      rw [Outbound.queued_pop]
      exact (List.tail_sublist _).subset
  | conclude hpump hrun hstops hready => exact h.close rfl rfl rfl
  | breakOff hpump hrun hb hready => exact h.close rfl rfl rfl
  | _ => exact { h with }

theorem route (h : s.TicketsSound) (frame : Frame) : (s.route frame).TicketsSound := by
  obtain ⟨outstanding, news, hub, ready, heq, -⟩ := route_eq s frame
  rw [heq]
  exact { h with }

theorem moves (h : s.TicketsSound) (hqueue : s.QueueSound) (hmoves : Moves i hs s t) :
    t.TicketsSound := by
  induction hmoves with
  | refl s => exact h
  | move hmove hrest ih => exact ih (h.move hqueue hmove) (hqueue.move hmove)
  | route hrun hrest ih => exact ih (h.route _) (hqueue.route _)

theorem of_reachable (h : s.Reachable) : s.TicketsSound := by
  have hboth : s.QueueSound ∧ s.TicketsSound := by
    refine h.induction (P := fun s => s.QueueSound ∧ s.TicketsSound) ?_ ?_ ?_
    · intro settings s hset
      refine ⟨.ofSettings hset, ?_⟩
      obtain rfl := eq_of_ofSettings hset
      refine ⟨rfl, ?_, ?_, ?_, ?_⟩
      · intro i j call call' ticket hcall
        simp at hcall
      · intro j call bytes waiter command hcall
        simp at hcall
      · exact fun o ho => absurd ho List.not_mem_nil
      · intro j call hcall
        simp at hcall
    · exact fun s pump h => ⟨h.1, { h.2 with }⟩
    · exact fun i hs s t h hmoves => ⟨h.1.moves hmoves, h.2.moves h.1 hmoves⟩
  exact hboth.2

/-- A frame in the queue has no receipt. -/
theorem unreported (h : s.TicketsSound) (hmem : ticket ∈ s.outbound.tickets) :
    s.receipt? ticket = none := by
  have hnodup : (s.receipts.map (·.1) ++ s.outbound.tickets).Nodup := by
    rw [h.numbered]
    exact List.nodup_range'
  rcases hfind : s.receipts.find? (·.1 == ticket) with _ | r
  · rw [receipt?, hfind, Option.map_none]
  · have hticket : r.1 = ticket := by simpa using List.find?_some hfind
    have hmem' : ticket ∈ s.receipts.map (·.1) :=
      hticket ▸ List.mem_map_of_mem (List.mem_of_find?_eq_some hfind)
    exact absurd rfl ((List.nodup_append.1 hnodup).2.2 ticket hmem' ticket hmem)

end TicketsSound

/-! ### What has become of the frame of a call -/

/-- What the link has said to the frame of a call, as far as it has been asked. -/
def written? (s : Session) (call : Call) : Option (Except Error Unit) :=
  match call.stage with
  | .forWrite ticket _ | .held ticket _ => s.receipt? ticket
  | .forReply _ => some (.ok ())
  | _ => none

theorem written?_of_place (hplace : call.stage.place = .frame ticket) :
    s.written? call = s.receipt? ticket := by
  unfold written?
  cases hstage : call.stage with
  | forWrite ticket' waiter =>
    rw [hstage] at hplace
    rw [Place.frame.inj hplace]
  | held ticket' waiter =>
    rw [hstage] at hplace
    rw [Place.frame.inj hplace]
  | _ =>
    rw [hstage] at hplace
    cases hplace

theorem written?_congr (hreceipts : t.receipts = s.receipts) (call : Call) :
    t.written? call = s.written? call := by
  unfold written? receipt?
  rw [hreceipts]

/-- A frame in the queue has not been dealt with. -/
theorem TicketsSound.written?_of_queued (h : s.TicketsSound)
    (hplace : call.stage.place = .frame ticket) (hmem : ticket ∈ s.outbound.tickets) :
    s.written? call = none := by
  rw [written?_of_place hplace, h.unreported hmem]

/-- A call that waits for a response has been written, refused, or waits for a slot or in the
queue. -/
theorem QueueSound.unwritten_cases (h : s.QueueSound) (hcall : s.calls[j]? = some call) {w : Nat}
    (hwaiter : call.stage.waiter? = some w) (hnone : s.written? call = none) :
    (∃ bytes, call.stage = .forSlot bytes (some w)) ∨
      ∃ o ∈ s.outbound.queued, call.stage.place = .frame o.ticket := by
  have hframe : ∀ {ticket : Nat}, call.stage.place = .frame ticket →
      ∃ o ∈ s.outbound.queued, call.stage.place = .frame o.ticket := by
    intro ticket hplace
    have hget := getElem?_places hcall
    rw [hplace] at hget
    rcases h.reported j ticket hget with hmem | ⟨outcome, hmem⟩
    · obtain ⟨o, ho, rfl⟩ := List.mem_map.1 hmem
      exact ⟨o, ho, hplace⟩
    · rw [written?_of_place hplace] at hnone
      exact absurd hmem (receipt?_eq_none.1 hnone outcome)
  cases hstage : call.stage with
  | forSlot bytes waiter =>
    rw [hstage] at hwaiter
    obtain rfl : waiter = some w := hwaiter
    exact .inl ⟨bytes, rfl⟩
  | forWrite ticket waiter => exact .inr (hstage ▸ hframe (by rw [hstage]; rfl))
  | held ticket waiter => exact .inr (hstage ▸ hframe (by rw [hstage]; rfl))
  | forReply waiter =>
    rw [written?, hstage] at hnone
    cases hnone
  | _ =>
    rw [hstage] at hwaiter
    cases hwaiter

/-- The link has answered to the first frame in the queue. -/
theorem receipt?_append (outcome : Except Error Unit) (ticket' : Nat)
    (hreceipts : t.receipts = s.receipts ++ [(ticket, outcome)])
    (hnew : s.receipt? ticket = none) :
    t.receipt? ticket' = if ticket' = ticket then some outcome else s.receipt? ticket' := by
  unfold receipt? at hnew ⊢
  rw [hreceipts, List.find?_append]
  by_cases heq : ticket' = ticket
  · subst heq
    rw [if_pos rfl, Option.map_eq_none_iff.1 hnew]
    simp
  · have hother : (List.find? (fun r => r.1 == ticket') [(ticket, outcome)]) = none := by
      simp [Ne.symm heq]
    rw [if_neg heq, hother, Option.or_none]

end Session

end BleHost
