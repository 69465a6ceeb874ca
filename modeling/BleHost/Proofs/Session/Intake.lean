import BleHost.Proofs.Frame.Segments
import BleHost.Proofs.Session.Life

/-!
# The way in

Whatever the pump does in between, what it reads comes to what one assembler makes of all bytes at
once. Each frame then goes one of two ways, by its header (`Catalogue.event?`,
`Catalogue.response?`), so that the events published and the responses offered so far are known from
the bytes read so far (`published_and_offered_eq`).
-/

namespace BleHost

namespace Catalogue

variable {c : Catalogue} {f : Frame} {m : Message} {e : Error}

/-- The event that a frame brings: what it decodes to if its header says event. -/
def event? (c : Catalogue) (f : Frame) : Option Message :=
  if f.id.isEvent then (c.decode f).toOption else none

/-- The response that a frame brings: what it decodes to if its header does not say event. -/
def response? (c : Catalogue) (f : Frame) : Option (Identity × Message) :=
  if f.id.isEvent then none else (c.decode f).toOption.map (f.id, ·)

/-- A frame that can be decoded goes one way only. -/
theorem goes_one_way (h : c.decode f = .ok m) :
    f.id.isEvent = true ∧ c.event? f = some m ∧ c.response? f = none ∨
      f.id.isEvent = false ∧ c.event? f = none ∧ c.response? f = some (f.id, m) := by
  unfold event? response?
  rw [h]
  cases f.id.isEvent with
  | true => exact .inl ⟨rfl, rfl, rfl⟩
  | false => exact .inr ⟨rfl, rfl, rfl⟩

/-- A frame that cannot be decoded goes nowhere. -/
theorem goes_nowhere (h : c.decode f = .error e) : c.event? f = none ∧ c.response? f = none := by
  unfold event? response?
  rw [h]
  cases f.id.isEvent with
  | true => exact ⟨rfl, rfl⟩
  | false => exact ⟨rfl, rfl⟩

/-- Leaving out a frame that goes nowhere makes no difference. -/
theorem filterMap_remove {α : Type} {g : Frame → Option α} (before after : List Frame)
    (h : g f = none) : (before ++ f :: after).filterMap g = (before ++ after).filterMap g := by
  rw [List.filterMap_append, List.filterMap_append, List.filterMap_cons_none h]

end Catalogue

namespace Outstanding

theorem offered_offer (o : Outstanding) (id : Identity) (m : Message) :
    (o.offer id m).2.offered = o.offered ++ [(id, m)] := by
  unfold offer
  dsimp only
  split <;> rfl

end Outstanding

namespace Session

variable {i : Nat} {s t : Session} {hs : List (Session × Frame)} {action : Action}
  {actions : List Action}

/-! ### What one change publishes and offers -/

@[simp] theorem offered_withoutWaiter (o : Outstanding) (stage : Stage) :
    (withoutWaiter o stage).offered = o.offered := by
  unfold withoutWaiter
  split <;> rfl

theorem Claims.offered {request : Request} {bytes : List UInt8} {outstanding : Outstanding}
    {waiter : Option Nat} (h : s.Claims request bytes outstanding waiter) :
    outstanding.offered = s.outstanding.offered := by
  cases h with
  | nothing h => rfl
  | waiter h hr =>
    unfold Outstanding.register at hr
    split at hr
    · cases hr
    · obtain ⟨-, rfl⟩ := Prod.mk.inj (Option.some.inj hr)
      rfl

/-- How much has been published and offered, for which settings and after which bytes. -/
def Intake (s : Session) : List Message × List (Identity × Message) × Settings × Pump :=
  (s.hub.stream.published, s.outstanding.offered, s.settings, s.pump)

/-- No move brings anything in. -/
theorem Move.intake_eq (h : Move i s t) : t.Intake = s.Intake := by
  cases h with
  | queue hcall hstage hturn hlive hclaims hopen hroom hready => simp [Intake, hclaims.offered]
  | block hcall hstage hturn hlive hclaims hopen hroom => simp [Intake, hclaims.offered]
  | refuse bytes hcall hstage hturn hlive hclaims hclosed => simp [Intake, hclaims.offered]
  | finish hcall hgoing hover hready => simp [Intake]
  | use => simp [Intake]
  | _ => rfl

/-- A frame that is handed out brings in what it says. -/
theorem intake_route (hsound : s.LifeSound) (hrun : s.IsRunning) (frame : Frame) :
    (s.route frame).Intake =
      (s.hub.stream.published ++ (s.settings.catalogue.event? frame).toList,
        s.outstanding.offered ++ (s.settings.catalogue.response? frame).toList,
        s.settings, s.pump) := by
  have hopen := (hsound.open_of_isRunning hrun).2.2.2
  unfold Session.route
  rcases hd : s.settings.catalogue.decode frame with e | m
  · obtain ⟨hevent, hresponse⟩ := Catalogue.goes_nowhere hd
    simp [Intake, hevent, hresponse]
  · rcases Catalogue.goes_one_way hd with ⟨hid, hevent, hresponse⟩ | ⟨hid, hevent, hresponse⟩
    · simp [Intake, hid, hevent, hresponse, EventHub.publish, Broadcast.publish, hopen]
    · have hoffered := Outstanding.offered_offer s.outstanding frame.id m
      simp only [hid, hevent, hresponse, Bool.false_eq_true, if_false]
      rcases ho : s.outstanding.offer frame.id m with ⟨taker | waiter, outstanding⟩
      · rw [ho] at hoffered
        simp [Intake, ← hoffered]
      · rw [ho] at hoffered
        obtain ⟨ready, heq, -⟩ := tell_eq { s with outstanding } waiter (.ok m)
        dsimp only
        rw [heq]
        simp [Intake, ← hoffered]

theorem toList_append_filterMap {α β : Type} (g : α → Option β) (a : α) (l : List α) :
    (g a).toList ++ l.filterMap g = (a :: l).filterMap g := by
  cases h : g a <;> simp [h]

/-- The frames that are handed out between moves bring in what they say, in order. -/
theorem Moves.intake_eq (h : Moves i hs s t) (hsound : s.LifeSound) :
    t.Intake =
      (s.hub.stream.published ++ (hs.map Prod.snd).filterMap s.settings.catalogue.event?,
        s.outstanding.offered ++ (hs.map Prod.snd).filterMap s.settings.catalogue.response?,
        s.settings, s.pump) := by
  induction h with
  | refl s => simp [Intake]
  | @move hs s t u hmove hrest ih =>
    have heq := hmove.intake_eq
    simp only [Intake, Prod.mk.injEq] at heq
    rw [ih (hsound.move hmove), heq.1, heq.2.1, heq.2.2.1, heq.2.2.2]
  | @route hs s u frame hrun hrest ih =>
    have heq := intake_route hsound hrun frame
    simp only [Intake, Prod.mk.injEq] at heq
    rw [ih (hsound.route hrun frame), heq.1, heq.2.1, heq.2.2.1, heq.2.2.2]
    rw [List.append_assoc, List.append_assoc, toList_append_filterMap, toList_append_filterMap,
      List.map_cons]

/-! ### What an action brings in -/

/-- The pump puts the bytes of an action through its assembler, and hands out the frames. -/
theorem handouts_eq (s : Session) (action : Action) :
    (s.handouts action).map Prod.snd = (s.pump.assembler.feed action.bytes).2 ∧
      (s.pumpAfter action).assembler = (s.pump.assembler.feed action.bytes).1 := by
  cases action with
  | read outcome =>
    simp only [handouts, pumpAfter, map_snd_handOut]
    cases outcome with
    | idle => exact ⟨rfl, rfl⟩
    | received bytes =>
      cases bytes with
      | nil => exact ⟨rfl, rfl⟩
      | cons byte bytes => exact ⟨rfl, rfl⟩
    | failed e =>
      by_cases he : e = .timeout
      · simp [Pump.read, he, Action.bytes]
      · simp [Pump.read, he, Action.bytes, Pump.fail]
  | write outcome =>
    cases outcome with
    | ok u => exact ⟨rfl, rfl⟩
    | error e => exact ⟨rfl, rfl⟩
  | _ => exact ⟨rfl, rfl⟩

/-- A run brings in what its bytes say, taken together. -/
theorem intake_run (hsound : s.LifeSound) (h : s.run? actions = some t) :
    ∃ pump, t.Intake =
      (s.hub.stream.published ++
          (s.pump.assembler.feed (received actions)).2.filterMap s.settings.catalogue.event?,
        s.outstanding.offered ++
          (s.pump.assembler.feed (received actions)).2.filterMap s.settings.catalogue.response?,
        s.settings, pump) := by
  induction actions generalizing s with
  | nil =>
    obtain rfl : s = t := by simpa using h
    exact ⟨s.pump, by simp [Intake, received]⟩
  | cons action actions ih =>
    obtain ⟨u, hstep, hrun⟩ := run?_cons_eq_some.1 h
    have hmoves := moves_of_step? hstep
    have hsound' : LifeSound { s with pump := s.pumpAfter action } := { hsound with }
    obtain ⟨pump, ht⟩ := ih (hsound'.moves hmoves) hrun
    obtain ⟨hframes, hassembler⟩ := handouts_eq s action
    have hu := hmoves.intake_eq hsound'
    rw [hframes] at hu
    simp only [Intake, Prod.mk.injEq] at hu
    refine ⟨pump, ?_⟩
    rw [ht, hu.1, hu.2.1, hu.2.2.1, hu.2.2.2, hassembler, received_cons, Assembler.feed_append]
    simp [List.filterMap_append]

/-- **What comes in.** After any run, the events published so far and the responses offered so far
are, in order, those of the frames that one fresh assembler makes of all bytes read so far. A frame
that can be decoded goes one way only, which its header says; and without the bytes of a frame that
cannot be decoded, for whatever reason, it all would have been the same. -/
theorem published_and_offered_eq {settings : Settings} {s₀ : Session}
    (h₀ : ofSettings settings = .ok s₀) (hrun : s₀.run? actions = some s) :
    (s.hub.stream.published =
        (({} : Assembler).feed (received actions)).2.filterMap settings.catalogue.event? ∧
      s.outstanding.offered =
        (({} : Assembler).feed (received actions)).2.filterMap settings.catalogue.response?) ∧
    (∀ f m, settings.catalogue.decode f = .ok m →
      f.id.isEvent = true ∧ settings.catalogue.event? f = some m ∧
          settings.catalogue.response? f = none ∨
        f.id.isEvent = false ∧ settings.catalogue.event? f = none ∧
          settings.catalogue.response? f = some (f.id, m)) ∧
    ∀ before f after e, settings.catalogue.decode f = .error e →
      (({} : Assembler).feed (received actions)).2 = before ++ f :: after →
      ∃ x y, received actions = x ++ f.bytes ++ y ∧ (({} : Assembler).feed x).2 = before ∧
        s.hub.stream.published =
          (({} : Assembler).feed (x ++ y)).2.filterMap settings.catalogue.event? ∧
        s.outstanding.offered =
          (({} : Assembler).feed (x ++ y)).2.filterMap settings.catalogue.response? := by
  have hstart : s₀.Intake = ([], [], settings, {}) := by
    rw [eq_of_ofSettings h₀]
    rfl
  obtain ⟨pump, hs⟩ := intake_run (.ofSettings h₀) hrun
  simp only [Intake, Prod.mk.injEq] at hstart hs
  obtain ⟨hpublished, hoffered, hsettings, hpump⟩ := hstart
  rw [hpublished, hoffered, hsettings, hpump, List.nil_append, List.nil_append] at hs
  obtain ⟨hs, hs', -, -⟩ := hs
  refine ⟨⟨hs, hs'⟩, fun f m => Catalogue.goes_one_way, ?_⟩
  intro before f after e hd hframes
  obtain ⟨x, y, hbytes, hbefore, hafter⟩ := Assembler.feed_remove_frame (a := {}) rfl hframes
  obtain ⟨hevent, hresponse⟩ := Catalogue.goes_nowhere hd
  refine ⟨x, y, hbytes, hbefore, ?_, ?_⟩
  · rw [hs, hframes, hafter, Catalogue.filterMap_remove before after hevent]
  · rw [hs', hframes, hafter, Catalogue.filterMap_remove before after hresponse]

/-- Noise, an unknown event, a scan response that is cut short, the answer to a hello and a
disconnection, in chunks, with a write, a failure and an idle poll in between. -/
theorem published_and_offered_eq_mixed : ∃ s₀ s, ofSettings {} = .ok s₀ ∧
    s₀.run? [.read (.received [0x55, 0x80, 0x00]), .call (.send (.bare 0x00 0x01)),
      .write (.ok ()), .read (.received [0x09, 0x09, 0x80, 0x01, 0x06]),
      .read (.failed (.link "lost bits")), .pass 10, .read .idle,
      .read (.received [0x00, 0xC4, 0x00, 0x00, 0x00, 0x01, 0x80, 0x03, 0x03, 0x04, 0x01]),
      .read (.received [0x13, 0x02])] = some s ∧
    s.hub.stream.published =
      [⟨.connectionDisconnected, 1, .known .remoteUserTerminatedConnection, ()⟩] ∧
    s.outstanding.offered = [(.response 0x00 0x01, ⟨.systemHello, ()⟩)] := by
  have hset : ofSettings {} = .ok _ := rfl
  refine ⟨_, _, hset, (Option.some_get (by decide +kernel)).symm, ?_, ?_⟩
  · rw [(published_and_offered_eq hset (Option.some_get _).symm).1.1]
    decide +kernel
  · rw [(published_and_offered_eq hset (Option.some_get _).symm).1.2]
    decide +kernel

end Session

end BleHost
