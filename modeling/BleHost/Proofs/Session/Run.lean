import BleHost.Bench
import Mathlib.Control.Monad.Basic

/-!
# Runs of a session

Everything that can happen to a session, one action at a time and in any order: what callers do,
turns, rounds of the pump with whatever the link answers, the passing of time, and what becomes of
events. An action that is not possible has no result. A bench takes such actions in an order of its
own (`Bench.exists_step_of_next?`); what is said of all runs holds of every order.

A write is one action: the link answers it before anybody else takes a turn.
-/

namespace BleHost

deriving instance DecidableEq for Stage, Call

/-- What others than the session do to its hub. -/
inductive HubUse
  | subscribe (react : Message → Reaction)
  | unsubscribe (id : Nat)
  | deliver (index : Nat)
  | addReceiver
  | dropReceiver (index : Nat)
  | receive (index : Nat)

/-- Use a hub. -/
def EventHub.use (h : EventHub) : HubUse → EventHub
  | .subscribe react => h.subscribe react
  | .unsubscribe id => h.unsubscribe id
  | .deliver index => h.deliver index
  | .addReceiver => h.receiver
  | .dropReceiver index => h.dropReceiver index
  | .receive index => (h.receive index).2

/-- Something that can happen to a session. -/
inductive Action
  /-- The owner makes a call. -/
  | call (request : Request)
  /-- Somebody begins to wait for the response of an exchange that has been handed over. -/
  | await (index : Nat) (limit : Option Nat)
  /-- A call, or an exchange that it has handed over, is given up. -/
  | abandon (index : Nat)
  /-- The owner lets go of the session. -/
  | release
  /-- A caller takes a turn, with or without a reason. -/
  | turn (index : Nat)
  /-- The pump finds that it has been told to stop. -/
  | halt
  /-- The pump writes the first queued frame, and the link answers. -/
  | write (outcome : Except Error Unit)
  /-- The pump reads. -/
  | read (outcome : ReadOutcome)
  /-- The pump has to wait. -/
  | pause
  /-- Time passes. -/
  | pass (ms : Nat)
  /-- The owner asks for somebody to be told of a failure. -/
  | listen (listener : LifecycleListener)
  | use (use : HubUse)

namespace Action

/-- The bytes that an action brings in. -/
def bytes : Action → List UInt8
  | read (.received bytes) => bytes
  | _ => []

end Action

namespace Session

/-- What an action makes of a session, if it is possible. -/
def step? (s : Session) : Action → Option Session
  | .call request => if s.released then none else some (s.call request)
  | .await index limit => some (s.await index limit)
  | .abandon index => some (s.abandon index)
  | .release => some s.release
  | .turn index => some ({ s with ready := s.ready.erase (.caller index) }.turn index)
  | .halt => if s.want = .stop then some s.halt else none
  | .write outcome =>
    match s.want with
    | .write frame => some (s.wrote frame outcome)
    | _ => none
  | .read outcome => if s.want = .read then some (s.read outcome) else none
  | .pause => some { s with ready := s.ready.erase .pump }
  | .pass ms => some (s.setClock (s.now + ms))
  | .listen listener =>
    if s.released then none else some { s with lifecycle := s.lifecycle.listen listener }
  | .use use => some { s with hub := s.hub.use use }

/-- What several actions make of a session, if each is possible in its turn. -/
def run? (s : Session) : List Action → Option Session
  | [] => some s
  | action :: actions =>
    match s.step? action with
    | none => none
    | some t => t.run? actions

/-- A session that has just been set up, after any number of actions. -/
def Reachable (s : Session) : Prop :=
  ∃ settings s₀ actions, ofSettings settings = .ok s₀ ∧ s₀.run? actions = some s

/-! ### What is handed out -/

/-- Frames that are handed out one after another, each with the session that it meets. -/
def handOut (s : Session) : List Frame → List (Session × Frame)
  | [] => []
  | frame :: frames => (s, frame) :: (s.route frame).handOut frames

/-- The frames that an action hands out, each with the session that it meets. -/
def handouts (s : Session) : Action → List (Session × Frame)
  | .read outcome =>
    let (pump, frames, _) := s.pump.read s.settings.maxFailures outcome
    { s with pump }.handOut frames
  | _ => []

/-- The frames that are handed out during a run, in order, each with the session that it meets. -/
def history (s : Session) : List Action → List (Session × Frame)
  | [] => []
  | action :: actions =>
    match s.step? action with
    | none => []
    | some t => s.handouts action ++ t.history actions

/-- What the actions of a run come to one after another, as long as they are possible. -/
def gather {α : Type} (each : Session → Action → List α) (s : Session) : List Action → List α
  | [] => []
  | action :: actions =>
    match s.step? action with
    | none => []
    | some t => each s action ++ gather each t actions

/-- All bytes that a run brings in, in order. -/
def received (actions : List Action) : List UInt8 := actions.flatMap Action.bytes

/-! ### Steps of a run -/

variable {s t u : Session} {action : Action} {actions : List Action}

theorem eq_of_ofSettings {settings : Settings} (h : ofSettings settings = .ok s) :
    s = { settings, outbound := .ofCapacity settings.outboundCapacity,
          hub := .ofCapacity settings.eventCapacity } := by
  unfold ofSettings at h
  split at h
  · cases h
  · exact (Except.ok.inj h).symm

@[simp] theorem run?_nil (s : Session) : s.run? [] = some s := rfl

theorem run?_cons_eq_some :
    s.run? (action :: actions) = some u ↔
      ∃ t, s.step? action = some t ∧ t.run? actions = some u := by
  cases h : s.step? action <;> simp [run?, h]

theorem history_cons (h : s.step? action = some t) :
    s.history (action :: actions) = s.handouts action ++ t.history actions := by
  simp [history, h]

theorem gather_cons {α : Type} {each : Session → Action → List α} (h : s.step? action = some t) :
    gather each s (action :: actions) = each s action ++ gather each t actions := by
  rw [gather, h]

@[simp] theorem received_cons (action : Action) (actions : List Action) :
    received (action :: actions) = action.bytes ++ received actions := by
  simp [received]

@[simp] theorem map_snd_handOut (s : Session) (frames : List Frame) :
    (s.handOut frames).map Prod.snd = frames := by
  induction frames generalizing s with
  | nil => rfl
  | cons frame frames ih => simp [handOut, ih]

theorem Reachable.refl {settings : Settings} (h : ofSettings settings = .ok s) : s.Reachable :=
  ⟨settings, s, [], h, rfl⟩

theorem run?_append {actions' : List Action} (h : s.run? actions = some t)
    (h' : t.run? actions' = some u) : s.run? (actions ++ actions') = some u := by
  induction actions generalizing s with
  | nil =>
    obtain rfl : s = t := by simpa using h
    exact h'
  | cons action actions ih =>
    obtain ⟨s', hs, ht⟩ := run?_cons_eq_some.1 h
    exact run?_cons_eq_some.2 ⟨s', hs, ih ht⟩

/-- A run of two parts comes by the end of the first. -/
theorem run?_append_eq_some {actions' : List Action} :
    s.run? (actions ++ actions') = some u ↔
      ∃ t, s.run? actions = some t ∧ t.run? actions' = some u := by
  refine ⟨fun h => ?_, fun ⟨t, h, h'⟩ => run?_append h h'⟩
  induction actions generalizing s with
  | nil => exact ⟨s, rfl, h⟩
  | cons action actions ih =>
    obtain ⟨s', hs, hrest⟩ := run?_cons_eq_some.1 h
    obtain ⟨t, ht, hu⟩ := ih hrest
    exact ⟨t, run?_cons_eq_some.2 ⟨s', hs, ht⟩, hu⟩

/-- What comes after the beginning of a run. -/
theorem run?_of_append {before after : List Action} (hrun : s.run? (before ++ after) = some t)
    (hbefore : s.run? before = some u) : u.run? after = some t := by
  obtain ⟨u', hu', hrest⟩ := run?_append_eq_some.1 hrun
  obtain rfl := Option.some.inj (hbefore.symm.trans hu')
  exact hrest

/-- A run with one action more. -/
theorem run?_concat_eq_some :
    s.run? (actions ++ [action]) = some u ↔
      ∃ t, s.run? actions = some t ∧ t.step? action = some u := by
  rw [run?_append_eq_some]
  refine exists_congr fun t => and_congr_right fun _ => ?_
  rw [run?_cons_eq_some]
  exact ⟨fun ⟨v, hv, hu⟩ => by rwa [← Option.some.inj hu], fun h => ⟨u, h, rfl⟩⟩

theorem gather_append {α : Type} {each : Session → Action → List α} {actions' : List Action}
    (h : s.run? actions = some t) :
    gather each s (actions ++ actions') = gather each s actions ++ gather each t actions' := by
  induction actions generalizing s with
  | nil =>
    obtain rfl : s = t := by simpa using h
    rfl
  | cons action actions ih =>
    obtain ⟨s', hs, ht⟩ := run?_cons_eq_some.1 h
    rw [List.cons_append, gather_cons hs, gather_cons hs, ih ht, List.append_assoc]

/-- Whatever a run comes to, one of its actions does. -/
theorem exists_of_mem_gather {α : Type} {each : Session → Action → List α} {a : α}
    (h : a ∈ gather each s actions) : ∃ before action after u v,
      actions = before ++ action :: after ∧ s.run? before = some u ∧ u.step? action = some v ∧
        a ∈ each u action := by
  induction actions generalizing s with
  | nil => cases h
  | cons action actions ih =>
    rcases hstep : s.step? action with _ | t
    · rw [gather, hstep] at h
      cases h
    · rw [gather_cons hstep] at h
      rcases List.mem_append.1 h with hfirst | hrest
      · exact ⟨[], action, actions, s, t, rfl, run?_nil s, hstep, hfirst⟩
      · obtain ⟨before, action', after, u, v, rfl, hbefore, hlast⟩ := ih hrest
        exact ⟨action :: before, action', after, u, v, rfl,
          run?_cons_eq_some.2 ⟨t, hstep, hbefore⟩, hlast⟩

theorem mem_gather_of_step? {α : Type} {each : Session → Action → List α} {a : α}
    {before after : List Action} (hbefore : s.run? before = some t)
    (hstep : t.step? action = some u) (hmem : a ∈ each t action) :
    a ∈ gather each s (before ++ action :: after) := by
  rw [gather_append hbefore, gather_cons hstep]
  exact List.mem_append_right _ (List.mem_append_left _ hmem)

theorem Reachable.run (h : s.Reachable) (hr : s.run? actions = some t) : t.Reachable := by
  obtain ⟨settings, s₀, before, h₀, hb⟩ := h
  exact ⟨settings, s₀, before ++ actions, h₀, run?_append hb hr⟩

theorem Reachable.step (h : s.Reachable) (hs : s.step? action = some t) : t.Reachable :=
  h.run (run?_cons_eq_some.2 ⟨t, hs, run?_nil t⟩)

/-- What every step keeps, every run keeps. -/
theorem run?_induction {P : Session → Prop} (hstep : ∀ s a t, P s → s.step? a = some t → P t)
    (h : s.run? actions = some t) (hs : P s) : P t := by
  induction actions generalizing s with
  | nil =>
    obtain rfl : s = t := by simpa using h
    exact hs
  | cons action actions ih =>
    obtain ⟨s', hs', ht⟩ := run?_cons_eq_some.1 h
    exact ih ht (hstep s action s' hs hs')

end Session

/-! ### A bench takes the actions of a session -/

@[simp] theorem Bench.session_closeLink (b : Bench) : b.closeLink.session = b.session := by
  unfold Bench.closeLink
  split <;> rfl

/-- A round of the pump on a bench is an action of its session. -/
theorem Bench.exists_step_of_round? {b b' : Bench} (h : b.round? = some b') :
    ∃ action, b.session.step? action = some b'.session := by
  unfold Bench.round? at h
  split at h
  · cases h
  · rename_i hw
    have hs : b'.session = b.session.halt := by rw [← Option.some.inj h]; simp
    exact ⟨.halt, by simp [Session.step?, hw, hs]⟩
  · rename_i frame hw
    have hs : b'.session = b.session.wrote frame (b.link.write frame.bytes).1 := by
      rw [← Option.some.inj h]
      exact Bench.session_closeLink _
    exact ⟨.write (b.link.write frame.bytes).1, by simp only [Session.step?, hw, hs]⟩
  · rename_i hw
    split at h
    · cases h
    · rename_i bytes link hlink
      have hs : b'.session = b.session.read (.received bytes) := by
        rw [← Option.some.inj h]
        exact Bench.session_closeLink _
      exact ⟨.read (.received bytes), by simp only [Session.step?, hw, hs, if_true]⟩
    · rename_i e link hlink
      have hs : b'.session = b.session.read (.failed e) := by
        rw [← Option.some.inj h]
        exact Bench.session_closeLink _
      exact ⟨.read (.failed e), by simp only [Session.step?, hw, hs, if_true]⟩

/-- Whatever a bench does next is an action of its session. -/
theorem Bench.exists_step_of_next? {b b' : Bench} (h : b.next? = some b') :
    ∃ action, b.session.step? action = some b'.session := by
  unfold Bench.next? at h
  split at h
  · cases h
  · rename_i rest hready
    split at h
    · rename_i c hround
      rw [← Option.some.inj h]
      exact Bench.exists_step_of_round? hround
    · refine ⟨.pause, ?_⟩
      rw [← Option.some.inj h]
      simp [Session.step?, hready]
  · rename_i index rest hready
    refine ⟨.turn index, ?_⟩
    rw [← Option.some.inj h]
    simp [Session.step?, hready]

end BleHost
