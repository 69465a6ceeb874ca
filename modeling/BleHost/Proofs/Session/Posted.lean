import BleHost.Proofs.Session.Reasons

/-!
# Whoever succeeds has sent

A call comes to wait for the link, or for a response, only once its frame is in the outbound queue,
and from nowhere else does it come to succeed. So every call that has succeeded has its frame in the
ledger (`Posted`), the calls that end the session apart, which have none to send. And what the link
is given of the frames of some calls is the beginning of what they have in the ledger
(`passedOf_prefix`).
-/

namespace BleHost

/-- Whether a call with a frame to send gets to a stage only once the frame has been queued. -/
def Stage.isPosted : Stage → Bool
  | forWrite _ _ | forReply _ | held _ _ | ended _ (.ok _) => true
  | _ => false

namespace Session

variable {i j : Nat} {s s₀ t u : Session} {call : Call} {hs : List (Session × Frame)}
  {action : Action} {actions : List Action} {book : List (Nat × Outgoing)}

/-- The calls that have queued a frame, as far as their stages tell, have an entry in the ledger. -/
def Posted (book : List (Nat × Outgoing)) (s : Session) : Prop :=
  ∀ (j : Nat) (call : Call), s.calls[j]? = some call → call.request ≠ .shutdown →
    call.stage.isPosted = true → j ∈ book.map (·.1)

namespace Posted

theorem nil {settings : Settings} (h : ofSettings settings = .ok s) : Posted [] s := by
  obtain rfl := eq_of_ofSettings h
  intro j call hcall
  simp at hcall

/-- More entries do no harm. -/
theorem append (h : Posted book s) (more : List (Nat × Outgoing)) : Posted (book ++ more) s := by
  intro j call hcall hsends hposted
  rw [List.map_append]
  exact List.mem_append_left _ (h j call hcall hsends hposted)

theorem same (h : Posted book s) (hcalls : t.calls = s.calls) : Posted book t := by
  intro j call hcall
  rw [hcalls] at hcall
  exact h j call hcall

theorem enter (h : Posted book s) {entered : Call} (hstage : entered.stage = .inLine)
    (hcalls : t.calls = s.calls ++ [entered]) : Posted book t := by
  intro j call hcall hsends hposted
  rw [hcalls] at hcall
  rcases getElem?_append_cases hcall with ⟨-, rfl⟩ | hcall
  · rw [hstage] at hposted
    cases hposted
  · exact h j call hcall hsends hposted

/-- A call goes on, and has an entry if its new stage tells that it has queued a frame. -/
theorem modify (h : Posted book s) (hcall : s.calls[i]? = some call) {f : Call → Call}
    (hcalls : t.calls = s.calls.modify i f) (hrequest : (f call).request = call.request)
    (hnew : call.request ≠ .shutdown → (f call).stage.isPosted = true → i ∈ book.map (·.1)) :
    Posted book t := by
  intro j call' hj hsends hposted
  rw [hcalls] at hj
  rcases getElem?_modify_cases hcall hj with ⟨rfl, rfl⟩ | ⟨-, hj⟩
  · rw [hrequest] at hsends
    exact hnew hsends hposted
  · exact h j call' hj hsends hposted

/-- A frame is queued. -/
theorem push (h : Posted book s) (hcall : s.calls[i]? = some call) {stage : Stage}
    (hcalls : t.calls = s.calls.modify i (·.atStage stage))
    (hlast : t.outbound.lastTicket = s.outbound.lastTicket + 1) :
    Posted (book ++ entriesBetween i s t) t := by
  refine (h.append _).modify hcall hcalls rfl fun _ _ => ?_
  have hone : t.outbound.lastTicket - s.outbound.lastTicket = 1 := by omega
  rw [List.map_append, entriesBetween, hone]
  exact List.mem_append_right _ List.mem_cons_self

/-- A call that succeeds does so from a stage that it gets to only once its frame is queued. -/
theorem of_ends (h : Posted book s) (hfit : s.CallsFit) (hcall : s.calls[i]? = some call)
    (hsends : call.request ≠ .shutdown) {outcome : Outcome} (hends : s.Ends call (.ok outcome)) :
    i ∈ book.map (·.1) := by
  have hfit := hfit i call hcall
  refine h i call hcall hsends ?_
  cases hends with
  | stopped hrequest hstage => exact absurd hrequest hsends
  | settled houtcome =>
    unfold outcome? at houtcome
    cases hstage : call.stage with
    | inLine => simp [hstage] at houtcome
    | forSlot bytes waiter => simp [hstage] at houtcome
    | forPump =>
      rw [Call.IsFit, hstage] at hfit
      exact absurd hfit hsends
    | ended time result => simp [hstage] at houtcome
    | dropped => simp [hstage] at houtcome
    | _ => rfl

theorem move (h : Posted book s) (hfit : s.CallsFit) (hmove : Move i s t) :
    Posted (book ++ entriesBetween i s t) t := by
  cases hmove with
  | enter request deadline hi => exact (h.enter rfl rfl).append _
  | queue hcall hstage hturn hlive hclaims hopen hroom hready => exact h.push hcall rfl rfl
  | retry hcall hstage hopen hgranted hready => exact h.push hcall rfl rfl
  | block hcall hstage hturn hlive hclaims hopen hroom =>
    refine (h.modify hcall rfl rfl fun _ hposted => ?_).append _
    cases hposted
  | refuse bytes hcall hstage hturn hlive hclaims hclosed =>
    refine (h.modify hcall rfl rfl fun _ hposted => ?_).append _
    cases hposted
  | expect hcall hstage hreceipt hreply =>
    refine (h.modify hcall rfl rfl fun hsends _ => ?_).append _
    exact h i _ hcall hsends (by rw [hstage]; rfl)
  | await hcall hstage =>
    refine (h.modify hcall rfl rfl fun hsends _ => ?_).append _
    exact h i _ hcall hsends (by rw [hstage]; rfl)
  | waitForPump hcall hstage hrequest hrun =>
    exact (h.modify hcall rfl rfl fun hsends _ => absurd hrequest hsends).append _
  | @finish call stage ready hcall hgoing hover hready =>
    refine (h.modify hcall rfl rfl fun hsends hposted => ?_).append _
    rcases hover with rfl | ⟨result, rfl, hends⟩
    · cases hposted
    · cases result with
      | error e => cases hposted
      | ok outcome => exact h.of_ends hfit hcall hsends hends
  | _ => exact (h.same rfl).append _

theorem moves (h : Posted book s) (hfiled : Filed book s) (hfit : s.CallsFit)
    (hmoves : Moves i hs s t) : Posted (book ++ entriesBetween i s t) t := by
  induction hmoves generalizing book with
  | refl s => exact h.append _
  | move hmove hrest ih =>
    have hmid := hfiled.move hmove
    have hall := ih (h.move hfit hmove) hmid (hfit.move hmove)
    rwa [List.append_assoc, hmid.entriesBetween_append hmove.lastTicket_le hrest] at hall
  | @route hs s u frame hrun hrest ih =>
    have hlast := lastTicket_route s frame
    have hall := ih (h.same (calls_route s frame)) (hfiled.same (calls_route s frame) hlast)
      (hfit.moves (.route (i := i) hrun (.refl _)))
    rwa [entriesBetween, hlast, ← entriesBetween] at hall

theorem run (h : Posted book s) (hfiled : Filed book s) (hfit : s.CallsFit)
    (hrun : s.run? actions = some t) : Posted (book ++ s.ledger actions) t := by
  induction actions generalizing s book with
  | nil =>
    obtain rfl : s = t := by simpa using hrun
    rwa [Session.ledger, gather, List.append_nil]
  | cons action actions ih =>
    obtain ⟨u, hstep, hrest⟩ := run?_cons_eq_some.1 hrun
    have hpump : Posted book { s with pump := s.pumpAfter action } := h.same rfl
    have hfit' : CallsFit { s with pump := s.pumpAfter action } := hfit
    have hmoves := moves_of_step? hstep
    have hnext := hpump.moves (hfiled.same rfl rfl) hfit' hmoves
    rw [ledger_cons hstep, ← List.append_assoc]
    refine ih ?_ (hfiled.step hstep) (hfit'.moves hmoves) hrest
    rw [entries_eq hstep]
    exact hnext

end Posted

/-- The ledger of a run from the beginning. -/
theorem posted {settings : Settings} (h₀ : ofSettings settings = .ok s₀)
    (hrun : s₀.run? actions = some t) : Posted (s₀.ledger actions) t := by
  have h := (Posted.nil h₀).run (.nil h₀) (.ofSettings h₀) hrun
  rwa [List.nil_append] at h

/-- An exchange that succeeds ends with the response. -/
theorem exists_message_of_exchange (hs : s.Reachable) (hcall : s.calls[i]? = some call)
    {command : Command} {limit : Option Nat} (hrequest : call.request = .exchange command limit)
    {time : Nat} {outcome : Outcome} (hstage : call.stage = .ended time (.ok outcome)) :
    ∃ m, outcome = .message m := by
  obtain ⟨settings, s₀, actions, h₀, hrun⟩ := hs
  have htraced := (Traced.ofSettings h₀).run hrun
  have hawaited : call.request.awaited? = some command := by rw [hrequest]; rfl
  obtain ⟨p, -, m, -, hconclude⟩ :=
    htraced.ended i call command time outcome hcall hawaited hstage
  rcases Request.eq_of_conclude hconclude with hmessage | ⟨hask, -⟩
  · exact ⟨m, hmessage⟩
  · rw [hrequest] at hask
    cases hask

/-! ### The frames of some calls -/

/-- The entries of some calls in a ledger. -/
def entriesOf (calls : List Nat) (book : List (Nat × Outgoing)) : List (Nat × Outgoing) :=
  book.filter fun e => calls.contains e.1

/-- What the link is given during a run of the frames of some calls, in order. -/
def passedOf (s : Session) (calls : List Nat) (actions : List Action) : List (List UInt8) :=
  (((s.passed actions).map (·.1)).filter fun o =>
    ((entriesOf calls (s.ledger actions)).map (·.2)).contains o).map (·.bytes)

/-- A frame is in the ledger for one call only. -/
theorem Filed.eq_of_mem_of_mem (h : Filed book s) {o : Outgoing} (hi : (i, o) ∈ book)
    (hj : (j, o) ∈ book) : i = j :=
  congrArg Prod.fst (List.inj_on_of_nodup_map h.nodup_frames hi hj rfl)

/-- The link is given the frames of some calls in the order in which they were queued. -/
theorem passedOf_prefix {settings : Settings} (h₀ : ofSettings settings = .ok s₀)
    (hrun : s₀.run? actions = some t) (calls : List Nat) :
    s₀.passedOf calls actions <+: (entriesOf calls (s₀.ledger actions)).map (·.2.bytes) := by
  obtain ⟨lost, hflows⟩ := exists_flows h₀ hrun
  have hfiled := filed h₀ hrun
  -- a frame is one of theirs exactly if its entry is
  have hsame : ∀ e ∈ s₀.ledger actions,
      (((entriesOf calls (s₀.ledger actions)).map (·.2)).contains e.2) = calls.contains e.1 := by
    intro e he
    rw [Bool.eq_iff_iff, List.contains_iff_mem, List.mem_map]
    constructor
    · rintro ⟨⟨j, o⟩, hmem, rfl⟩
      obtain ⟨hmem, hcalls⟩ := List.mem_filter.1 hmem
      rwa [hfiled.eq_of_mem_of_mem he hmem]
    · exact fun hcalls => ⟨e, List.mem_filter.2 ⟨he, hcalls⟩, rfl⟩
  have hall : (((s₀.ledger actions).map (·.2)).filter fun o =>
      ((entriesOf calls (s₀.ledger actions)).map (·.2)).contains o).map (·.bytes) =
        (entriesOf calls (s₀.ledger actions)).map (·.2.bytes) := by
    rw [List.filter_map, List.map_map]
    exact congrArg (List.map _) (List.filter_congr hsame)
  rw [← hall]
  refine List.IsPrefix.map _ (List.IsPrefix.filter _ ?_)
  rw [hflows.frames, List.append_assoc]
  exact List.prefix_append _ _

end Session

end BleHost
