import BleHost.Proofs.Message.Standard
import BleHost.Proofs.Session.Correlation
import BleHost.Proofs.Session.Passage

/-!
# Why calls fail

A call that awaits a response fails for one of five reasons (`Fails`), and over a run each failure
has one of them (`Explained`). Under the standard catalogue the last of these, a response of a wrong
kind, does not occur: whatever responds to a command has the identity of its response, and a
question is only answered by what it asks for (`answers_are_standard`).
-/

namespace BleHost

/-- A call that succeeds ends with its response, except that nothing is told of a hello. -/
theorem Request.eq_of_conclude {request : Request} {m : Message} {outcome : Outcome}
    (h : request.conclude m = .ok outcome) :
    outcome = .message m ∨ request = .ask .hello ∧ outcome = .finished := by
  unfold conclude at h
  split at h
  · rename_i query
    split at h
    · obtain rfl := Except.ok.inj h
      by_cases hhello : query = .hello
      · exact .inr ⟨by rw [hhello], if_pos hhello⟩
      · exact .inl (if_neg hhello)
    · cases h
  · exact .inl (Except.ok.inj h).symm

namespace Session

variable {i j : Nat} {s s₀ t : Session} {f : Frame} {m : Message} {w : Nat} {call : Call}
  {e : Error} {hs hs' : List (Session × Frame)} {p : Session × Frame} {request : Request}
  {actions : List Action}

/-- Why a call that awaits a response fails. -/
inductive Fails (hs : List (Session × Frame)) (s : Session) (j : Nat) (request : Request) :
    Error → Prop
  /-- Its time is over. -/
  | late : Fails hs s j request .timeout
  /-- The session is dead. -/
  | dead : Fails hs s j request .dead
  /-- The link is lost. -/
  | lost (cause : String) : Fails hs s j request (.linkLost cause)
  /-- A frame has been refused. -/
  | refused {ticket : Nat} {e : Error} (h : (ticket, .error e) ∈ s.receipts) :
    Fails hs s j request e
  /-- It makes an error of the response that it got. -/
  | answered {p : Session × Frame} {m : Message} {e : Error} (hp : p ∈ hs) (h : Completes p j m)
    (hconclude : request.conclude m = .error e) : Fails hs s j request e

/-- A reason remains one. -/
theorem Fails.mono (h : Fails hs s j request e) (hhs : hs ⊆ hs') (hgrown : Grown s t) :
    Fails hs' t j request e := by
  cases h with
  | late => exact .late
  | dead => exact .dead
  | lost cause => exact .lost cause
  | refused h => exact .refused (hgrown.receipts.subset h)
  | answered hp h hconclude => exact .answered (hhs hp) h hconclude

/-- What waiters are told instead of a response: that the session is dead, or the link lost. -/
def RepliesSound (s : Session) : Prop :=
  ∀ w e, (w, .error e) ∈ s.replies → e = .dead ∨ ∃ cause, e = .linkLost cause

namespace RepliesSound

theorem last (h : s.RepliesSound) {o : Outstanding} {e : Error}
    (he : e = .dead ∨ ∃ cause, e = .linkLost cause)
    (ht : t.replies = s.replies ++ lastReplies o e) : t.RepliesSound := by
  intro w e' hmem
  rw [ht] at hmem
  rcases List.mem_append.1 hmem with hmem | hmem
  · exact h w e' hmem
  · obtain ⟨v, -, heq⟩ := List.mem_map.1 hmem
    obtain rfl : e = e' := Except.error.inj (Prod.mk.inj heq).2
    exact he

theorem move (h : s.RepliesSound) (hmove : Move i s t) : t.RepliesSound := by
  cases hmove with
  | hush hstopped hready => exact h.last (.inl rfl) rfl
  | conclude hpump hrun hstops hready =>
    refine h.last ?_ rfl
    cases hstops with
    | halted hcancel => exact .inl rfl
    | lost cause hcancel hb => exact .inr ⟨cause, rfl⟩
  | _ => exact h

theorem route (h : s.RepliesSound) (f : Frame) : (s.route f).RepliesSound := by
  intro w e hmem
  obtain ⟨outstanding, news, hub, ready, heq, -, hok, -⟩ := route_eq s f
  rw [heq] at hmem
  rcases List.mem_append.1 hmem with hmem | hmem
  · exact h w e hmem
  · obtain ⟨m, he⟩ := hok _ hmem
    cases he

end RepliesSound

/-- What has become of the calls of a session that has handed out frames: those that await a
response and have failed have had a reason. -/
structure Explained (hs : List (Session × Frame)) (s : Session) : Prop extends Traced hs s where
  told : s.RepliesSound
  failed : ∀ (j : Nat) (call : Call) (c : Command) (time : Nat) (e : Error),
    s.calls[j]? = some call → call.request.awaited? = some c →
    call.stage = .ended time (.error e) → Fails hs s j call.request e

namespace Explained

theorem ofSettings {settings : Settings} (h : ofSettings settings = .ok s) : Explained [] s where
  toTraced := .ofSettings h
  told := by
    obtain rfl := eq_of_ofSettings h
    intro w e hw
    cases hw
  failed := by
    obtain rfl := eq_of_ofSettings h
    intro j call c time e hcall
    simp at hcall

/-- A call that fails has a reason to. -/
theorem fails_of_ends (h : Explained hs s) (hcall : s.calls[j]? = some call) {c : Command}
    (hcommand : call.request.awaited? = some c) (hends : s.Ends call (.error e)) :
    Fails hs s j call.request e := by
  rcases hends.awaited_cases (h.fit j call hcall) hcommand with
    htimeout | hdead | ⟨ticket, e', hreceipt, hrefused⟩ | ⟨w, reply, hw, hmem, hresult⟩
  · rw [Except.error.inj htimeout]
    exact .late
  · rw [Except.error.inj hdead]
    exact .dead
  · obtain rfl := Except.error.inj hrefused
    exact .refused hreceipt
  · cases reply with
    | error e' =>
      obtain rfl := Except.error.inj hresult
      rcases h.told w e hmem with rfl | ⟨cause, rfl⟩
      · exact .dead
      · exact .lost cause
    | ok m =>
      obtain ⟨p, hp, htakes⟩ := h.answered w m hmem
      exact .answered hp (htakes.completes (h.sounds p hp) (h.later p hp) ⟨call, hcall, hw⟩)
        hresult.symm

theorem move (h : Explained hs s) (hmove : Move i s t) : Explained hs t where
  toTraced := h.toTraced.move hmove
  told := h.told.move hmove
  failed := by
    intro j call c time e hcall hcommand hstage
    have hgrown := Grown.of_move hmove
    rcases hmove.ended hcall hstage with hcall | ⟨call₀, hcall₀, hrequest, hends⟩
    · exact (h.failed j call c time e hcall hcommand hstage).mono (List.Subset.refl _) hgrown
    · rw [hrequest] at hcommand ⊢
      exact (h.fails_of_ends hcall₀ hcommand hends).mono (List.Subset.refl _) hgrown

theorem route (h : Explained hs s) (f : Frame) : Explained (hs ++ [(s, f)]) (s.route f) where
  toTraced := h.toTraced.route f
  told := h.told.route f
  failed := by
    intro j call c time e hcall hcommand hstage
    rw [calls_route] at hcall
    exact (h.failed j call c time e hcall hcommand hstage).mono (List.subset_append_left _ _)
      (.of_route s f)

theorem withPump (h : Explained hs s) (pump : Pump) : Explained hs { s with pump } where
  toTraced := h.toTraced.withPump pump
  told := h.told
  failed := fun j call c time e hcall hcommand hstage =>
    (h.failed j call c time e hcall hcommand hstage).mono (List.Subset.refl _)
      { Grown.refl s with }

theorem run (h : Explained hs s) (hrun : s.run? actions = some t) :
    Explained (hs ++ s.history actions) t :=
  run?_history_induction hrun move (fun f h => h.route f) (fun pump h => h.withPump pump) h

end Explained

/-! ### Under the standard catalogue -/

/-- What completes a call responds to its command. -/
theorem Traced.id_of_completes (h : Traced hs s) (hstandard : s.settings.catalogue = .standard)
    (hp : p ∈ hs) (hcompletes : Completes p i m) (hcall : s.calls[i]? = some call) :
    ∃ c, call.request.awaited? = some c ∧ m.id = c.responseId := by
  obtain ⟨w, call₀, c, hcall₀, hw, hcommand, hid, -, -, hdecode⟩ :=
    hcompletes.facts (h.sounds p hp)
  obtain ⟨call', hcall', hrequest, -, -⟩ :=
    ((Later.of_route p.1 p.2).trans (h.later p hp)).call i call₀ hcall₀
  obtain rfl : call = call' := Option.some.inj (hcall.symm.trans hcall')
  rw [h.settings p hp, hstandard] at hdecode
  exact ⟨c, hrequest ▸ hcommand, (Catalogue.id_of_decode_standard hdecode).trans hid⟩

/-- The command that puts a question is the one to which its answer is the response. -/
theorem responseId_command (query : Query) : query.command.responseId = query.answer.id := by
  cases query <;> rfl

/-- What completes a question answers it. -/
theorem Traced.kind_of_completes (h : Traced hs s) (hstandard : s.settings.catalogue = .standard)
    (hp : p ∈ hs) (hcompletes : Completes p i m) (hcall : s.calls[i]? = some call) {query : Query}
    (hrequest : call.request = .ask query) : m.kind = query.answer := by
  obtain ⟨c, hcommand, hid⟩ := h.id_of_completes hstandard hp hcompletes hcall
  rw [hrequest] at hcommand
  obtain rfl : query.command = c := Option.some.inj hcommand
  exact MessageKind.id_injective (hid.trans (responseId_command query))

/-- A call that makes no error of the response that it gets only fails for want of one. -/
theorem Explained.error_cases (h : Explained hs s)
    {book : List (Nat × Outgoing)} {past : List (Outgoing × Except Error Unit)}
    {lost : List Outgoing} (hflows : Flows book past lost s) (hcall : s.calls[i]? = some call)
    {c : Command} (hcommand : call.request.awaited? = some c) {time : Nat}
    (hstage : call.stage = .ended time (.error e))
    (hanswers : ∀ p ∈ hs, ∀ m, Completes p i m → call.request.conclude m ≠ .error e) :
    e = .timeout ∨ e = .dead ∨ (∃ cause, e = .linkLost cause) ∨ ∃ o, (o, .error e) ∈ past := by
  cases h.failed i call c time e hcall hcommand hstage with
  | late => exact .inl rfl
  | dead => exact .inr (.inl rfl)
  | lost cause => exact .inr (.inr (.inl ⟨cause, rfl⟩))
  | refused hreceipt =>
    rw [hflows.receipts, List.mem_append] at hreceipt
    rcases hreceipt with hpast | hlost
    · obtain ⟨⟨o, outcome⟩, hpast, heq⟩ := List.mem_map.1 hpast
      obtain rfl : outcome = .error e := (Prod.mk.inj heq).2
      exact .inr (.inr (.inr ⟨o, hpast⟩))
    · obtain ⟨o, -, heq⟩ := List.mem_map.1 hlost
      obtain rfl : Error.dead = e := Except.error.inj (Prod.mk.inj heq).2
      exact .inr (.inl rfl)
  | answered hp hcompletes hconclude => exact absurd hconclude (hanswers _ hp _ hcompletes)

/-- **Answers are standard.** What the standard catalogue decodes has the identity of its frame; it
does not decode a frame whose identity it does not hold, and says which; and from a frame whose
identity it holds only missing bytes keep it. So after any run under that catalogue, a call for a
command that has ended well has got the response to that command, and a question has been completed
by nothing but the kind of message that answers it: it failed only because its time was over,
because the session was dead or the link lost, or with what the link said to a frame. -/
theorem answers_are_standard :
    (∀ f m, Catalogue.standard.decode f = .ok m → m.id = f.id) ∧
    (∀ f, Catalogue.standard.contains f.id = false →
      Catalogue.standard.decode f = .error (.unknownPacket f.id)) ∧
    (∀ f e, Catalogue.standard.contains f.id = true → Catalogue.standard.decode f = .error e →
      ∃ needed available, e = .truncated needed available) ∧
    ∀ (settings : Settings) (s₀ s : Session) (actions : List Action),
      settings.catalogue = .standard → ofSettings settings = .ok s₀ → s₀.run? actions = some s →
      ∀ (i : Nat) (call : Call), s.calls[i]? = some call →
        (∀ c time outcome, call.request.awaited? = some c →
          call.stage = .ended time (.ok outcome) →
          ∃ p ∈ s₀.history actions, ∃ m, Completes p i m ∧ m.id = c.responseId ∧
            (outcome = .message m ∨ call.request = .ask .hello ∧ outcome = .finished)) ∧
        ∀ query, call.request = .ask query →
          (∀ p ∈ s₀.history actions, ∀ m, Completes p i m → m.kind = query.answer) ∧
          ∀ time e, call.stage = .ended time (.error e) →
            e = .timeout ∨ e = .dead ∨ (∃ cause, e = .linkLost cause) ∨
              ∃ o, (o, .error e) ∈ s₀.passed actions := by
  refine ⟨fun f m => Catalogue.id_of_decode_standard, fun f => Catalogue.decode_of_not_contains,
    fun f e hcontains h => ?_, ?_⟩
  · obtain ⟨needed, available, he, -⟩ := Catalogue.truncated_of_decode_standard hcontains h
    exact ⟨needed, available, he⟩
  intro settings s₀ s actions hcatalogue h₀ hrun i call hcall
  have h := (Explained.ofSettings h₀).run hrun
  rw [List.nil_append] at h
  have hstandard : s.settings.catalogue = .standard := by
    rw [settings_eq_of_run? hrun, eq_of_ofSettings h₀, hcatalogue]
  constructor
  · intro c time outcome hcommand hstage
    obtain ⟨p, hp, m, hcompletes, hconclude⟩ := h.ended i call c time outcome hcall hcommand hstage
    obtain ⟨c', hcommand', hid⟩ := h.id_of_completes hstandard hp hcompletes hcall
    obtain rfl : c' = c := Option.some.inj (hcommand'.symm.trans hcommand)
    exact ⟨p, hp, m, hcompletes, hid, Request.eq_of_conclude hconclude⟩
  · intro query hrequest
    have hkind : ∀ p ∈ s₀.history actions, ∀ m, Completes p i m → m.kind = query.answer :=
      fun p hp m hcompletes => h.kind_of_completes hstandard hp hcompletes hcall hrequest
    refine ⟨hkind, fun time e hstage => ?_⟩
    obtain ⟨lost, hflows⟩ := exists_flows h₀ hrun
    refine h.error_cases hflows hcall (c := query.command) (by rw [hrequest]; rfl) hstage ?_
    intro p hp m hcompletes
    rw [hrequest, Request.conclude, if_pos (hkind p hp m hcompletes)]
    exact nofun

/-- Somebody asks for the number of connections, and gets it behind the answer to a hello that
nobody has sent. -/
def connectionsAsked : List Action :=
  [.call (.ask .connections), .write (.ok ()),
    .read (.received [0x00, 0x00, 0x00, 0x01, 0x00, 0x01, 0x00, 0x06, 0x08]), .turn 0]

theorem answers_are_standard_connections : ∃ s₀ s call,
    ofSettings {} = .ok s₀ ∧ s₀.run? connectionsAsked = some s ∧ s.calls[0]? = some call ∧
    call.stage = .ended 0 (.ok (.message ⟨.systemGetConnections, (8, ())⟩)) ∧
    (∃ p ∈ s₀.history connectionsAsked, ∃ m, Completes p 0 m ∧ m.id = .response 0 6) ∧
    ∀ p ∈ s₀.history connectionsAsked, ∀ m, Completes p 0 m → m.kind = .systemGetConnections := by
  have h₀ : ofSettings {} = .ok _ := rfl
  obtain ⟨s, hrun, hcalls⟩ := Option.map_eq_some_iff.1 (by decide +kernel :
    ((ofSettings {}).toOption.bind (·.run? connectionsAsked)).map (·.calls) = some
      [⟨.ask .connections, some 2000, .ended 0 (.ok (.message ⟨.systemGetConnections, (8, ())⟩))⟩])
  rw [h₀] at hrun
  have hcall : s.calls[0]? = some
      ⟨.ask .connections, some 2000,
        .ended 0 (.ok (.message ⟨.systemGetConnections, (8, ())⟩))⟩ := by
    rw [hcalls]
    rfl
  obtain ⟨hended, hasked⟩ := answers_are_standard.2.2.2 {} _ s _ rfl h₀ hrun 0 _ hcall
  obtain ⟨p, hp, m, hcompletes, hid, -⟩ := hended Query.connections.command 0 _ rfl rfl
  exact ⟨_, s, _, h₀, hrun, hcall, rfl, ⟨p, hp, m, hcompletes, hid⟩, (hasked .connections rfl).1⟩

end Session

end BleHost
