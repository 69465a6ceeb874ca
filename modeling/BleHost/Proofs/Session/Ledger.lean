import BleHost.Proofs.Session.Roster

/-!
# The ledger of queued frames

Every frame that gets into the outbound queue during a run is entered in a ledger, with the place of
the call whose frame it is (`Session.ledger`). The entries are numbered from one, each is the frame
that its call was asked to have written, and no call has two of them (`Filed`). A call that stands
in line or waits for a slot has none, and once it is over it gets none any more.
-/

namespace BleHost

/-- Whether a frame is still to be queued. -/
def Stage.isEarly : Stage → Bool
  | inLine | forSlot _ _ => true
  | _ => false

@[simp] theorem Stage.isEarly_queued (request : Request) (ticket : Nat) (waiter : Option Nat) :
    (Stage.queued request ticket waiter).isEarly = false := by
  cases request <;> cases waiter <;> rfl

theorem Stage.isEarly_eq_false_of_isOver {stage : Stage} (h : stage.isOver = true) :
    stage.isEarly = false := by
  cases stage <;> first | rfl | cases h

theorem Request.awaited?_eq {request : Request} (h : request.exclusive?.isSome = true) :
    request.awaited? = request.exclusive? := by
  cases request <;> first | rfl | cases h

theorem Request.frame?_eq {request : Request} {command : Command}
    (h : request.awaited? = some command) : request.frame? = some command.bytes := by
  cases request with
  | initiate c => rw [← Option.some.inj h]; rfl
  | exchange c limit => rw [← Option.some.inj h]; rfl
  | ask query => rw [← Option.some.inj h]; rfl
  | _ => cases h

namespace Session

variable {i j : Nat} {s s₀ t u : Session} {call call' : Call} {hs : List (Session × Frame)}
  {action : Action} {actions : List Action} {book : List (Nat × Outgoing)} {ticket : Nat}

theorem Claims.frame?_eq {request : Request} {bytes : List UInt8} {outstanding : Outstanding}
    {waiter : Option Nat} (h : s.Claims request bytes outstanding waiter) :
    request.frame? = some bytes := by
  cases h with
  | nothing hnone hsends hframe => exact hframe
  | waiter hcommand hr => exact Request.frame?_eq hcommand

/-! ### Entries -/

/-- The frame that the call at a place wants to have written. -/
def frameOf (s : Session) (i : Nat) : List UInt8 := ((s.calls[i]?).bind (·.request.frame?)).getD []

/-- The frames that the call at a place has queued between one session and a later one. -/
def entriesBetween (i : Nat) (s t : Session) : List (Nat × Outgoing) :=
  (List.range' (s.outbound.lastTicket + 1) (t.outbound.lastTicket - s.outbound.lastTicket)).map
    fun ticket => (i, ⟨ticket, t.frameOf i⟩)

/-- The frames that an action queues, each with the place of the call whose frame it is. -/
def entries (s : Session) (action : Action) : List (Nat × Outgoing) :=
  match s.step? action with
  | some t => entriesBetween (s.actor action) s t
  | none => []

/-- The frames that are queued during a run, in order. -/
def ledger (s : Session) (actions : List Action) : List (Nat × Outgoing) := gather entries s actions

theorem entries_eq (hstep : s.step? action = some t) :
    s.entries action = entriesBetween (s.actor action) s t := by
  rw [entries, hstep]

theorem ledger_cons (hstep : s.step? action = some t) :
    s.ledger (action :: actions) = s.entries action ++ t.ledger actions :=
  gather_cons hstep

theorem frameOf_eq (hcall : s.calls[i]? = some call) {bytes : List UInt8}
    (hframe : call.request.frame? = some bytes) : s.frameOf i = bytes := by
  rw [frameOf, hcall, Option.bind_some, hframe, Option.getD_some]

theorem entriesBetween_of_eq (hlast : t.outbound.lastTicket = s.outbound.lastTicket) :
    entriesBetween i s t = [] := by
  rw [entriesBetween, hlast, Nat.sub_self]
  rfl

/-- Nobody else has an entry. -/
theorem not_mem_entriesBetween (hij : i ≠ j) : j ∉ (entriesBetween i s t).map (·.1) := by
  intro hmem
  obtain ⟨e, he, rfl⟩ := List.mem_map.1 hmem
  obtain ⟨ticket, -, rfl⟩ := List.mem_map.1 he
  exact hij rfl

theorem entriesBetween_of_push (hcall : t.calls[i]? = some call) {bytes : List UInt8}
    (hframe : call.request.frame? = some bytes)
    (hlast : t.outbound.lastTicket = s.outbound.lastTicket + 1) :
    entriesBetween i s t = [(i, ⟨s.outbound.lastTicket + 1, bytes⟩)] := by
  have hone : t.outbound.lastTicket - s.outbound.lastTicket = 1 := by omega
  rw [entriesBetween, hone, frameOf_eq hcall hframe]
  rfl

theorem entriesBetween_trans (hst : s.outbound.lastTicket ≤ t.outbound.lastTicket)
    (htu : t.outbound.lastTicket ≤ u.outbound.lastTicket)
    (hframe : entriesBetween i s t ≠ [] → u.frameOf i = t.frameOf i) :
    entriesBetween i s t ++ entriesBetween i t u = entriesBetween i s u := by
  by_cases hnone : entriesBetween i s t = []
  · have heq : t.outbound.lastTicket = s.outbound.lastTicket := by
      rw [entriesBetween, List.map_eq_nil_iff, List.range'_eq_nil_iff] at hnone
      omega
    rw [hnone, List.nil_append, entriesBetween, entriesBetween, heq]
  · have hstart : t.outbound.lastTicket + 1 =
        s.outbound.lastTicket + 1 + (t.outbound.lastTicket - s.outbound.lastTicket) := by omega
    have hlength : t.outbound.lastTicket - s.outbound.lastTicket +
        (u.outbound.lastTicket - t.outbound.lastTicket) =
          u.outbound.lastTicket - s.outbound.lastTicket := by omega
    rw [entriesBetween, entriesBetween, entriesBetween, hframe hnone, hstart, ← hlength,
      ← List.range'_append_1, List.map_append]

/-! ### What is entered -/

/-- What a ledger says about a session, and what it leaves open. -/
structure Filed (book : List (Nat × Outgoing)) (s : Session) : Prop where
  numbered : book.map (·.2.ticket) = List.range' 1 s.outbound.lastTicket
  once : (book.map (·.1)).Nodup
  entered : ∀ e ∈ book, ∃ call : Call, s.calls[e.1]? = some call ∧
    call.request.frame? = some e.2.bytes ∧ call.stage.isEarly = false
  carried : ∀ (j : Nat) (call : Call) (bytes : List UInt8) (waiter : Option Nat),
    s.calls[j]? = some call → call.stage = .forSlot bytes waiter →
    call.request.frame? = some bytes
  owned : ∀ (j : Nat) (call : Call) (ticket : Nat), s.calls[j]? = some call →
    call.stage.place = .frame ticket → ∃ bytes, (j, ⟨ticket, bytes⟩) ∈ book

namespace Filed

theorem nil {settings : Settings} (h : ofSettings settings = .ok s) : Filed [] s := by
  obtain rfl := eq_of_ofSettings h
  constructor
  · rfl
  · exact .nil
  · exact fun e he => absurd he List.not_mem_nil
  · intro j call bytes waiter hcall
    simp at hcall
  · intro j call ticket hcall
    simp at hcall

/-- Nothing is queued, and the calls are as they were. -/
theorem same (h : Filed book s) (hcalls : t.calls = s.calls)
    (hlast : t.outbound.lastTicket = s.outbound.lastTicket) : Filed book t where
  numbered := by rw [hlast, h.numbered]
  once := h.once
  entered := by rw [hcalls]; exact h.entered
  carried := by rw [hcalls]; exact h.carried
  owned := by rw [hcalls]; exact h.owned

/-- A call comes in. -/
theorem enter (h : Filed book s) {entered : Call} (hstage : entered.stage = .inLine)
    (hcalls : t.calls = s.calls ++ [entered])
    (hlast : t.outbound.lastTicket = s.outbound.lastTicket) : Filed book t where
  numbered := by rw [hlast, h.numbered]
  once := h.once
  entered := by
    intro e he
    obtain ⟨call, hcall, hrest⟩ := h.entered e he
    refine ⟨call, ?_, hrest⟩
    rw [hcalls, List.getElem?_append_left (List.getElem?_eq_some_iff.1 hcall).1, hcall]
  carried := by
    intro j call bytes waiter hj hslot
    rw [hcalls] at hj
    rcases getElem?_append_cases hj with ⟨-, rfl⟩ | hj
    · cases hstage.symm.trans hslot
    · exact h.carried j call bytes waiter hj hslot
  owned := by
    intro j call ticket hj hplace
    rw [hcalls] at hj
    rcases getElem?_append_cases hj with ⟨-, rfl⟩ | hj
    · rw [hstage] at hplace
      cases hplace
    · exact h.owned j call ticket hj hplace

/-- A call goes on, and queues nothing. -/
theorem modify (h : Filed book s) (hcall : s.calls[i]? = some call) {f : Call → Call}
    (hrequest : (f call).request = call.request)
    (hlate : call.stage.isEarly = false → (f call).stage.isEarly = false)
    (hcarried : ∀ bytes waiter, (f call).stage = .forSlot bytes waiter →
      call.request.frame? = some bytes)
    (howned : ∀ ticket, (f call).stage.place = .frame ticket → call.stage.place = .frame ticket)
    (hcalls : t.calls = s.calls.modify i f)
    (hlast : t.outbound.lastTicket = s.outbound.lastTicket) : Filed book t where
  numbered := by rw [hlast, h.numbered]
  once := h.once
  entered := by
    intro e he
    obtain ⟨call', hcall', hframe, hearly⟩ := h.entered e he
    by_cases hi : i = e.1
    · subst hi
      obtain rfl := Option.some.inj (hcall.symm.trans hcall')
      exact ⟨f call, by rw [hcalls, getElem?_modify_self hcall], by rw [hrequest, hframe],
        hlate hearly⟩
    · exact ⟨call', by rw [hcalls, getElem?_modify_of_ne hi, hcall'], hframe, hearly⟩
  carried := by
    intro j call' bytes waiter hj hslot
    rw [hcalls] at hj
    rcases getElem?_modify_cases hcall hj with ⟨rfl, rfl⟩ | ⟨-, hj⟩
    · rw [hrequest]
      exact hcarried bytes waiter hslot
    · exact h.carried j call' bytes waiter hj hslot
  owned := by
    intro j call' ticket hj hplace
    rw [hcalls] at hj
    rcases getElem?_modify_cases hcall hj with ⟨rfl, rfl⟩ | ⟨-, hj⟩
    · exact h.owned j call ticket hcall (howned ticket hplace)
    · exact h.owned j call' ticket hj hplace

/-- A call that does not wait for anything at the queue goes on without it. -/
theorem leave (h : Filed book s) (hcall : s.calls[i]? = some call) {stage : Stage}
    (hearly : stage.isEarly = false) (hplace : stage.place = .away)
    (hcalls : t.calls = s.calls.modify i (·.atStage stage))
    (hlast : t.outbound.lastTicket = s.outbound.lastTicket) : Filed book t := by
  refine h.modify hcall rfl (fun _ => hearly) ?_ ?_ hcalls hlast
  · intro bytes waiter hslot
    rw [Call.stage_atStage] at hslot
    rw [hslot] at hplace
    cases hplace
  · intro ticket hframe
    rw [Call.stage_atStage, hplace] at hframe
    cases hframe

/-- A frame is queued for a call that has queued none. -/
theorem push (h : Filed book s) (hcall : s.calls[i]? = some call)
    (hearly : call.stage.isEarly = true) {bytes : List UInt8}
    (hframe : call.request.frame? = some bytes) {waiter : Option Nat}
    (hcalls : t.calls = s.calls.modify i
      (·.atStage (.queued call.request (s.outbound.lastTicket + 1) waiter)))
    (hlast : t.outbound.lastTicket = s.outbound.lastTicket + 1) :
    Filed (book ++ entriesBetween i s t) t := by
  have hafter : t.calls[i]? =
      some (call.atStage (.queued call.request (s.outbound.lastTicket + 1) waiter)) := by
    rw [hcalls, getElem?_modify_self hcall]
  rw [entriesBetween_of_push hafter hframe hlast]
  have hold : ∀ e ∈ book, e.1 ≠ i := by
    rintro e he rfl
    obtain ⟨call', hcall', -, hlate⟩ := h.entered e he
    rw [Option.some.inj (hcall'.symm.trans hcall), hearly] at hlate
    cases hlate
  constructor
  · rw [List.map_append, h.numbered, hlast, List.range'_1_concat, Nat.add_comm 1]
    rfl
  · rw [List.map_append, List.nodup_append]
    refine ⟨h.once, List.nodup_singleton i, ?_⟩
    intro a ha b hb
    obtain ⟨e, he, rfl⟩ := List.mem_map.1 ha
    rw [List.mem_singleton.1 hb]
    exact hold e he
  · intro e he
    rcases List.mem_append.1 he with he | he
    · obtain ⟨call', hcall', hrest⟩ := h.entered e he
      exact ⟨call', by rw [hcalls, getElem?_modify_of_ne (hold e he).symm, hcall'], hrest⟩
    · obtain rfl := List.mem_singleton.1 he
      exact ⟨_, hafter, hframe, Stage.isEarly_queued ..⟩
  · intro j call' bytes' waiter' hj hslot
    rw [hcalls] at hj
    rcases getElem?_modify_cases hcall hj with ⟨rfl, rfl⟩ | ⟨-, hj⟩
    · have hlate := congrArg Stage.isEarly hslot
      rw [Call.stage_atStage, Stage.isEarly_queued] at hlate
      cases hlate
    · exact h.carried j call' bytes' waiter' hj hslot
  · intro j call' ticket hj hplace
    rw [hcalls] at hj
    rcases getElem?_modify_cases hcall hj with ⟨rfl, rfl⟩ | ⟨-, hj⟩
    · rw [Call.stage_atStage, Stage.place_queued] at hplace
      obtain rfl := Place.frame.inj hplace
      exact ⟨bytes, List.mem_append_right _ (List.mem_singleton_self _)⟩
    · obtain ⟨bytes', hmem⟩ := h.owned j call' ticket hj hplace
      exact ⟨bytes', List.mem_append_left _ hmem⟩

theorem move (h : Filed book s) (hmove : Move i s t) :
    Filed (book ++ entriesBetween i s t) t := by
  -- where nothing is queued there is no new entry
  have hnone : t.outbound.lastTicket = s.outbound.lastTicket → Filed book t →
      Filed (book ++ entriesBetween i s t) t := by
    intro hlast h
    rwa [entriesBetween_of_eq hlast, List.append_nil]
  cases hmove with
  | enter request deadline hi => exact hnone rfl (h.enter rfl rfl rfl)
  | queue hcall hstage hturn hlive hclaims hopen hroom hready =>
    exact h.push hcall (by rw [hstage]; rfl) hclaims.frame?_eq rfl rfl
  | block hcall hstage hturn hlive hclaims hopen hroom =>
    refine hnone rfl (h.modify hcall rfl ?_ ?_ (fun _ hplace => by cases hplace) rfl rfl)
    · rw [hstage]
      exact nofun
    · intro bytes waiter hslot
      obtain ⟨rfl, -⟩ := Stage.forSlot.inj hslot
      exact hclaims.frame?_eq
  | refuse bytes hcall hstage hturn hlive hclaims hclosed =>
    refine hnone rfl (h.modify hcall rfl ?_ ?_ (fun _ hplace => by cases hplace) rfl rfl)
    · rw [hstage]
      exact nofun
    · intro bytes' waiter hslot
      obtain ⟨rfl, -⟩ := Stage.forSlot.inj hslot
      exact hclaims.frame?_eq
  | @retry call bytes waiter ready hcall hstage hopen hgranted hready =>
    exact h.push hcall (by rw [hstage]; rfl) (h.carried i call bytes waiter hcall hstage) rfl rfl
  | expect hcall hstage hreceipt hreply => exact hnone rfl (h.leave hcall rfl rfl rfl rfl)
  | await hcall hstage =>
    refine hnone rfl (h.modify hcall rfl (fun _ => rfl) ?_ ?_ rfl rfl)
    · intro bytes waiter hslot
      cases hslot
    · rw [hstage]
      exact fun _ hplace => hplace
  | waitForPump hcall hstage hrequest hrun => exact hnone rfl (h.leave hcall rfl rfl rfl rfl)
  | finish hcall hgoing hover hready =>
    have hlast := lastTicket_withoutCaller s.outbound i
    have hdone := isOver_of_finished hover
    exact hnone (hlast _) (h.leave hcall (Stage.isEarly_eq_false_of_isOver hdone)
      (Stage.place_of_isOver hdone) rfl (hlast _))
  | wrote outcome hpump hrun hqueued hready =>
    exact hnone (Outbound.lastTicket_pop _) (h.same rfl (Outbound.lastTicket_pop _))
  | _ => exact hnone rfl (h.same rfl rfl)

end Filed

/-! ### Entries of a run -/

theorem Move.lastTicket_le (hmove : Move i s t) :
    s.outbound.lastTicket ≤ t.outbound.lastTicket := by
  cases hmove with
  | queue hcall hstage hturn hlive hclaims hopen hroom hready => exact Nat.le_succ _
  | retry hcall hstage hopen hgranted hready => exact Nat.le_succ _
  | finish hcall hgoing hover hready => exact (lastTicket_withoutCaller ..).ge
  | wrote outcome hpump hrun hqueued hready => exact (Outbound.lastTicket_pop _).ge
  | _ => exact Nat.le_refl _

theorem lastTicket_route (s : Session) (frame : Frame) :
    (s.route frame).outbound.lastTicket = s.outbound.lastTicket := by
  obtain ⟨outstanding, news, hub, ready, heq, -⟩ := route_eq s frame
  rw [heq]

theorem Moves.lastTicket_le (hmoves : Moves i hs s t) :
    s.outbound.lastTicket ≤ t.outbound.lastTicket := by
  induction hmoves with
  | refl s => exact Nat.le_refl _
  | move hmove hrest ih => exact Nat.le_trans hmove.lastTicket_le ih
  | route hrun hrest ih => rwa [lastTicket_route] at ih

theorem Later.frameOf_eq (h : Later s t) (hcall : s.calls[i]? = some call) :
    t.frameOf i = s.frameOf i := by
  obtain ⟨call', hcall', hrequest, -⟩ := h.call i call hcall
  rw [frameOf, frameOf, hcall, hcall', Option.bind_some, Option.bind_some, hrequest]

namespace Filed

/-- Entries that are made one after another: whoever has one has a call, which stays what it was
asked for. -/
theorem entriesBetween_append (h : Filed (book ++ entriesBetween i s t) t)
    (hlast : s.outbound.lastTicket ≤ t.outbound.lastTicket) (hmoves : Moves i hs t u) :
    entriesBetween i s t ++ entriesBetween i t u = entriesBetween i s u := by
  refine entriesBetween_trans hlast hmoves.lastTicket_le fun hsome => ?_
  obtain ⟨e, he⟩ := List.exists_mem_of_ne_nil _ hsome
  obtain ⟨call, hcall, -⟩ := h.entered e (List.mem_append_right _ he)
  obtain ⟨ticket, -, rfl⟩ := List.mem_map.1 he
  exact (Later.of_moves hmoves).frameOf_eq hcall

theorem moves (h : Filed book s) (hmoves : Moves i hs s t) :
    Filed (book ++ entriesBetween i s t) t := by
  induction hmoves generalizing book with
  | refl s => rwa [entriesBetween_of_eq rfl, List.append_nil]
  | move hmove hrest ih =>
    have hmid := h.move hmove
    have hall := ih hmid
    rwa [List.append_assoc, hmid.entriesBetween_append hmove.lastTicket_le hrest] at hall
  | route hrun hrest ih =>
    have hall := ih (h.same (calls_route _ _) (lastTicket_route _ _))
    rwa [entriesBetween, lastTicket_route, ← entriesBetween] at hall

theorem step (h : Filed book s) (hstep : s.step? action = some t) :
    Filed (book ++ s.entries action) t := by
  rw [entries_eq hstep]
  exact Filed.moves (s := { s with pump := s.pumpAfter action }) (h.same rfl rfl)
    (moves_of_step? hstep)

theorem run (h : Filed book s) (hrun : s.run? actions = some t) :
    Filed (book ++ s.ledger actions) t := by
  induction actions generalizing s book with
  | nil =>
    obtain rfl : s = t := by simpa using hrun
    rw [Session.ledger, gather, List.append_nil]
    exact h
  | cons action actions ih =>
    obtain ⟨u, hstep, hrest⟩ := run?_cons_eq_some.1 hrun
    rw [ledger_cons hstep, ← List.append_assoc]
    exact ih (h.step hstep) hrest

end Filed

/-- The ledger of a run from the beginning. -/
theorem filed {settings : Settings} (h₀ : ofSettings settings = .ok s₀)
    (hrun : s₀.run? actions = some t) : Filed (s₀.ledger actions) t := by
  have h := (Filed.nil h₀).run hrun
  rwa [List.nil_append] at h

/-- A call that stands in line or waits for a slot has no entry. -/
theorem Filed.not_mem_of_isEarly (h : Filed book s) (hcall : s.calls[i]? = some call)
    (hearly : call.stage.isEarly = true) : i ∉ book.map (·.1) := by
  intro hmem
  obtain ⟨e, he, rfl⟩ := List.mem_map.1 hmem
  obtain ⟨call', hcall', -, hlate⟩ := h.entered e he
  rw [Option.some.inj (hcall'.symm.trans hcall), hearly] at hlate
  cases hlate

end Session

end BleHost
