import BleHost.Proofs.Events.Readout
import Mathlib.Data.List.Basic

/-!
# What listeners are handed

A hub goes through any steps in any order: it is used, events are published and it is closed. Which
steps end a subscription (`EventHub.ends`) depends on the step and on what the listener makes of the
event that is handed to it. A step gives a listener an event only if one is published while the
subscription is in force (`EventHub.listeners_step`), hence over a run it is given what is published
before its subscription ends (`EventHub.listeners_run`). A hub that leaves out all that one listener
does hands the same to the others (`EventHub.Apart`).

A listener that goes by more than the event at hand is one whose handling returns and who then
unsubscribes, which is a step of its own.
-/

namespace BleHost

/-- Something that happens to a hub. -/
inductive HubStep
  | use (use : HubUse)
  | publish (m : Message)
  | close

namespace HubStep

/-- The event that is published in a step. -/
def published : HubStep → List Message
  | publish m => [m]
  | _ => []

/-- Whether a listener is added in a step. -/
def subscribes : HubStep → Bool
  | use (.subscribe _) => true
  | _ => false

/-- What is left of a step when the listener in place `k`, whose subscription has the number
`k + 1`, does nothing: it makes nothing of events, is not handed any and is not unsubscribed. There
are `count` listeners before the step. -/
def without (k count : Nat) : HubStep → List HubStep
  | use (.subscribe react) => [use (.subscribe (if count = k then fun _ => .returns else react))]
  | use (.deliver index) => if index = k then [] else [use (.deliver index)]
  | use (.unsubscribe id) => if id = k + 1 then [] else [use (.unsubscribe id)]
  | step => [step]

end HubStep

namespace Listener

/-- A listener that has been handed the next event in its queue. -/
def next (l : Listener) : Listener :=
  match l.queued with
  | [] => l
  | m :: queued => { l with queued, handled := l.handled ++ [m] }

@[simp]
theorem next_id (l : Listener) : l.next.id = l.id := by
  unfold next
  split <;> rfl

@[simp]
theorem next_given (l : Listener) : l.next.handled ++ l.next.queued = l.handled ++ l.queued := by
  unfold next
  split
  · rfl
  · rename_i m queued hqueued
    rw [hqueued, List.append_assoc, List.singleton_append]

end Listener

namespace EventHub

/-- What a step makes of a hub. -/
def step (h : EventHub) : HubStep → EventHub
  | .use use => h.use use
  | .publish m => h.publish m
  | .close => h.close

/-- What several steps make of a hub. -/
def run (h : EventHub) (steps : List HubStep) : EventHub := steps.foldl step h

/-- What unsubscribing answers: whether fewer subscriptions are in force than before. -/
def removes (h : EventHub) (id : Nat) : Bool := (h.unsubscribe id).size != h.size

/-! ### What ends a subscription -/

/-- Whether a step ends a subscription: somebody unsubscribes it, its listener does so while it
handles an event, or all subscriptions end. -/
def ends (h : EventHub) (id : Nat) : HubStep → Bool
  | .use (.unsubscribe other) => other == id
  | .use (.deliver index) =>
    match h.listeners[index]? with
    | some ⟨other, react, m :: _, _⟩ => other == id && react m == .unsubscribes
    | _ => false
  | .close => true
  | _ => false

/-- Whether no step ends a subscription. -/
def outlasts (h : EventHub) (id : Nat) : List HubStep → Bool
  | [] => true
  | step :: steps => !h.ends id step && (h.step step).outlasts id steps

/-- The events that are published before a subscription ends, in order. -/
def publishedUntil (h : EventHub) (id : Nat) : List HubStep → List Message
  | [] => []
  | step :: steps =>
    if h.ends id step then [] else step.published ++ (h.step step).publishedUntil id steps

/-- The subscriptions that are made and do not end, in order. -/
def lasting (h : EventHub) : List HubStep → List Nat
  | [] => []
  | step :: steps =>
    (if step.subscribes && (h.step step).outlasts (h.lastId + 1) steps then [h.lastId + 1]
      else []) ++ (h.step step).lasting steps

/-! ### What a step does -/

variable {h g : EventHub} {k : Nat}

theorem isSubscribed_iff (h : EventHub) (id : Nat) :
    h.isSubscribed id = true ↔ id ∈ h.subscribed := by
  rw [isSubscribed, List.contains_iff_mem]

/-- Handing over an event ends the subscription if the listener wants it so. -/
theorem deliver_eq (h : EventHub) (index : Nat) :
    h.deliver index =
      { h with
        listeners := h.listeners.modify index Listener.next
        subscribed := h.subscribed.filter fun id => !h.ends id (.use (.deliver index)) } := by
  have hall : h.subscribed.filter (fun _ => true) = h.subscribed :=
    List.filter_eq_self.2 fun _ _ => rfl
  rw [List.modify_eq_set_getElem?]
  rcases hget : h.listeners[index]? with _ | ⟨id, react, _ | ⟨m, queued⟩, handled⟩
  · simp only [deliver, ends, hget, Bool.not_false, hall, Option.map_eq_map, Option.map_none,
      Option.getD_none]
  · obtain ⟨hlt, hget'⟩ := List.getElem?_eq_some_iff.1 hget
    have hset : h.listeners.set index ⟨id, react, [], handled⟩ = h.listeners := by
      rw [← hget', List.set_getElem_self]
    simp only [deliver, ends, hget, Bool.not_false, hall, Option.map_eq_map, Option.map_some,
      Option.getD_some, Listener.next, hset]
  · have hreturns : (Reaction.returns == .unsubscribes) = false := rfl
    have hpanics : (Reaction.panics == .unsubscribes) = false := rfl
    simp only [deliver, ends, hget, Option.map_eq_map, Option.map_some, Option.getD_some,
      Listener.next]
    cases react m with
    | returns => simp only [afterReaction, hreturns, Bool.and_false, Bool.not_false, hall]
    | panics => simp only [afterReaction, hpanics, Bool.and_false, Bool.not_false, hall]
    | unsubscribes =>
      have hother : ∀ other, (!(id == other)) = (other != id) := by
        intro other
        rw [bne, Bool.beq_comm]
      simp only [afterReaction, unsubscribe, beq_self_eq_true, Bool.and_true, hother]

/-- Only the listener that is handed an event can end its subscription by that. -/
theorem exists_of_ends_deliver {id index : Nat}
    (hends : h.ends id (.use (.deliver index)) = true) :
    ∃ l, h.listeners[index]? = some l ∧ l.id = id := by
  rw [ends] at hends
  split at hends
  · rename_i hget
    exact ⟨_, hget, eq_of_beq (Bool.and_eq_true_iff.1 hends).1⟩
  · cases hends

/-- Reading the stream is of no consequence to listeners. -/
theorem receive_eq (h : EventHub) (index : Nat) :
    (h.receive index).2 = { h with receivers := (h.receive index).2.receivers } := by
  unfold receive
  split <;> rfl

/-- What the steps of a hub have in common: a new listener gets the next number, and the
subscriptions left in force are those that the step does not end, and the one that it makes. -/
theorem subscribed_step (h : EventHub) (step : HubStep) :
    (h.step step).lastId = h.lastId + (if step.subscribes then 1 else 0) ∧
      (h.step step).subscribed =
        h.subscribed.filter (fun id => !h.ends id step) ++
          if step.subscribes then [h.lastId + 1] else [] := by
  have hall : h.subscribed.filter (fun _ => true) = h.subscribed :=
    List.filter_eq_self.2 fun _ _ => rfl
  cases step with
  | publish m => exact ⟨rfl, by simp [EventHub.step, publish, ends, HubStep.subscribes, hall]⟩
  | close => exact ⟨rfl, by simp [EventHub.step, close, ends, HubStep.subscribes]⟩
  | use use =>
    cases use with
    | subscribe react =>
      exact ⟨rfl, by simp [EventHub.step, EventHub.use, subscribe, ends, HubStep.subscribes, hall]⟩
    | unsubscribe id =>
      have hother : ∀ other, (!(id == other)) = (other != id) := by
        intro other
        rw [bne, Bool.beq_comm]
      exact ⟨rfl,
        by simp [EventHub.step, EventHub.use, unsubscribe, ends, HubStep.subscribes, hother]⟩
    | deliver index =>
      rw [EventHub.step, EventHub.use, deliver_eq]
      exact ⟨rfl, by simp [HubStep.subscribes]⟩
    | receive index =>
      rw [EventHub.step, EventHub.use, receive_eq]
      exact ⟨rfl, by simp [ends, HubStep.subscribes, hall]⟩
    | _ => exact ⟨rfl, by simp [EventHub.step, EventHub.use, receiver, dropReceiver, ends,
        HubStep.subscribes, hall]⟩

/-- A subscription stays in force unless the step ends it. -/
theorem isSubscribed_step {id : Nat} (hid : id ≤ h.lastId) (step : HubStep) :
    (h.step step).isSubscribed id = (h.isSubscribed id && !h.ends id step) := by
  have hnew : id ∉ if step.subscribes then [h.lastId + 1] else [] := by
    split
    · rw [List.mem_singleton]
      omega
    · exact List.not_mem_nil
  rw [Bool.eq_iff_iff, Bool.and_eq_true, isSubscribed_iff, isSubscribed_iff,
    (h.subscribed_step step).2, List.mem_append, List.mem_filter, or_iff_left hnew]

/-- A step leaves each listener where it is. It gives the listener the event that is published, if
the subscription is in force, and nothing else. -/
theorem listeners_step {l : Listener} (hl : h.listeners[k]? = some l) (step : HubStep) :
    ∃ l', (h.step step).listeners[k]? = some l' ∧ l'.id = l.id ∧
      l'.handled ++ l'.queued =
        l.handled ++ l.queued ++ if h.isSubscribed l.id then step.published else [] := by
  cases step with
  | publish m =>
    refine ⟨if h.isSubscribed l.id then { l with queued := l.queued ++ [m] } else l, ?_, ?_, ?_⟩
    · rw [EventHub.step, publish, List.getElem?_map, hl, Option.map_some]
    · split <;> rfl
    · cases h.isSubscribed l.id <;> simp [HubStep.published]
  | close => exact ⟨l, hl, rfl, by simp [HubStep.published]⟩
  | use use =>
    simp only [HubStep.published, ite_self, List.append_nil]
    cases use with
    | subscribe react =>
      refine ⟨l, ?_, rfl, rfl⟩
      rw [EventHub.step, EventHub.use, subscribe,
        List.getElem?_append_left (List.getElem?_eq_some_iff.1 hl).1, hl]
    | deliver index =>
      rw [EventHub.step, EventHub.use, deliver_eq]
      refine ⟨if index = k then l.next else l, ?_, ?_, ?_⟩
      · rw [List.getElem?_modify, hl, Option.map_eq_map, Option.map_some]
      · split
        · exact l.next_id
        · rfl
      · split
        · exact l.next_given
        · rfl
    | receive index =>
      rw [EventHub.step, EventHub.use, receive_eq]
      exact ⟨l, hl, rfl, rfl⟩
    | _ => exact ⟨l, hl, rfl, rfl⟩

/-- No event is published in a step that ends a subscription. -/
theorem published_of_ends {id : Nat} {step : HubStep} (hends : h.ends id step = true) :
    step.published = [] := by
  cases step with
  | publish m => cases hends
  | use use => rfl
  | close => rfl

/-- A step adds a listener, whose subscription gets the next number, or none. -/
theorem ids_step (h : EventHub) (step : HubStep) :
    (h.step step).listeners.map (·.id) =
      h.listeners.map (·.id) ++ if step.subscribes then [h.lastId + 1] else [] := by
  cases step with
  | publish m =>
    have hids : (h.publish m).listeners.map (·.id) = h.listeners.map (·.id) := by
      rw [publish, List.map_map]
      refine List.map_congr_left fun l _ => ?_
      dsimp only [Function.comp_apply]
      split <;> rfl
    simp only [EventHub.step, hids, HubStep.subscribes, Bool.false_eq_true, if_false,
      List.append_nil]
  | close => simp [EventHub.step, close, HubStep.subscribes]
  | use use =>
    cases use with
    | subscribe react => simp [EventHub.step, EventHub.use, subscribe, HubStep.subscribes]
    | deliver index =>
      simp only [EventHub.step, EventHub.use, deliver_eq, HubStep.subscribes, Bool.false_eq_true,
        if_false, List.append_nil]
      refine List.ext_getElem? fun place => ?_
      rw [List.getElem?_map, List.getElem?_map, List.getElem?_modify, Option.map_eq_map,
        Option.map_map]
      congr 1
      funext l
      dsimp only [Function.comp_apply]
      split
      · exact l.next_id
      · rfl
    | receive index =>
      rw [EventHub.step, EventHub.use, receive_eq]
      simp [HubStep.subscribes]
    | _ => simp [EventHub.step, EventHub.use, unsubscribe, receiver, dropReceiver,
        HubStep.subscribes]

/-! ### Over a run -/

/-- The listeners are numbered in the order in which they came, and each has at most one
subscription in force. -/
structure Numbered (h : EventHub) : Prop where
  ids : h.listeners.map (·.id) = List.range' 1 h.lastId
  known : ∀ id ∈ h.subscribed, id ≤ h.lastId
  once : h.subscribed.Nodup

theorem numbered_ofCapacity (capacity : Nat) : (ofCapacity capacity).Numbered :=
  ⟨rfl, fun _ hid => (List.not_mem_nil hid).elim, List.nodup_nil⟩

theorem Numbered.step (hh : h.Numbered) (step : HubStep) : (h.step step).Numbered := by
  obtain ⟨hlast, hsubscribed⟩ := h.subscribed_step step
  refine ⟨?_, ?_, ?_⟩
  · rw [ids_step, hlast, hh.ids]
    split
    · rw [List.range'_1_concat, Nat.add_comm 1]
    · rw [List.append_nil, Nat.add_zero]
  · intro id hid
    rw [hsubscribed, List.mem_append] at hid
    obtain hid | hid := hid
    · have := hh.known id (List.mem_filter.1 hid |>.1)
      omega
    · split at hid
      · rename_i hsubscribes
        rw [List.mem_singleton] at hid
        rw [hlast, if_pos hsubscribes]
        omega
      · exact (List.not_mem_nil hid).elim
  · rw [hsubscribed, List.nodup_append]
    refine ⟨hh.once.filter _, ?_, ?_⟩
    · split
      · exact List.pairwise_singleton _ _
      · exact List.nodup_nil
    · intro id hid other hother
      have := hh.known id (List.mem_filter.1 hid |>.1)
      split at hother
      · rw [List.mem_singleton.1 hother]
        omega
      · exact (List.not_mem_nil hother).elim

theorem Numbered.run (hh : h.Numbered) (steps : List HubStep) : (h.run steps).Numbered := by
  induction steps generalizing h with
  | nil => exact hh
  | cons step steps ih => exact ih (hh.step step)

theorem run_append (h : EventHub) (before after : List HubStep) :
    h.run (before ++ after) = (h.run before).run after := List.foldl_append

theorem lastId_run (h : EventHub) (steps : List HubStep) :
    (h.run steps).lastId = h.lastId + steps.countP (·.subscribes) := by
  induction steps generalizing h with
  | nil => rfl
  | cons step steps ih =>
    rw [run, List.foldl_cons, ← run, ih, (h.subscribed_step step).1, List.countP_cons]
    omega

/-- The subscriptions in force are those that have not ended, and those made since then that have
not ended either. -/
theorem subscribed_run (h : EventHub) (steps : List HubStep) :
    (h.run steps).subscribed =
      h.subscribed.filter (fun id => h.outlasts id steps) ++ h.lasting steps := by
  induction steps generalizing h with
  | nil =>
    have hall : h.subscribed.filter (fun _ => true) = h.subscribed :=
      List.filter_eq_self.2 fun _ _ => rfl
    simp only [run, List.foldl_nil, outlasts, lasting, hall, List.append_nil]
  | cons step steps ih =>
    have hnew : (if step.subscribes then [h.lastId + 1] else []).filter
          (fun id => (h.step step).outlasts id steps) =
        if step.subscribes && (h.step step).outlasts (h.lastId + 1) steps then [h.lastId + 1]
        else [] := by
      cases step.subscribes with
      | false => rfl
      | true => rw [if_pos rfl, List.filter_cons, List.filter_nil, Bool.true_and]
    rw [run, List.foldl_cons, ← run, ih, (h.subscribed_step step).2, List.filter_append, hnew,
      List.filter_filter, List.append_assoc]
    simp only [outlasts, lasting, Bool.and_comm]

/-- Over a run a listener is given what is published before its subscription ends, if it is in force
to begin with. -/
theorem listeners_run {l : Listener} (hl : h.listeners[k]? = some l) (hid : l.id ≤ h.lastId)
    (steps : List HubStep) :
    ∃ l', (h.run steps).listeners[k]? = some l' ∧ l'.id = l.id ∧
      l'.handled ++ l'.queued =
        l.handled ++ l.queued ++
          if h.isSubscribed l.id then h.publishedUntil l.id steps else [] := by
  induction steps generalizing h l with
  | nil => exact ⟨l, hl, rfl, by simp [publishedUntil]⟩
  | cons step steps ih =>
    obtain ⟨l₁, hl₁, hid₁, hgiven₁⟩ := listeners_step hl step
    have hlast : l₁.id ≤ (h.step step).lastId := by
      rw [hid₁, (h.subscribed_step step).1]
      omega
    obtain ⟨l₂, hl₂, hid₂, hgiven₂⟩ := ih hl₁ hlast
    refine ⟨l₂, hl₂, hid₂.trans hid₁, ?_⟩
    rw [hgiven₂, hgiven₁, hid₁, isSubscribed_step hid, publishedUntil, List.append_assoc]
    cases h.isSubscribed l.id with
    | false => rfl
    | true =>
      cases hends : h.ends l.id step with
      | false => simp
      | true => simp [published_of_ends hends]

/-- A worker that empties its queue hands over all that is in it. -/
theorem listeners_drain {l : Listener} (hl : h.listeners[k]? = some l) :
    ∃ l', (h.drain k).listeners[k]? = some l' ∧ l'.id = l.id ∧ l'.queued = [] ∧
      l'.handled = l.handled ++ l.queued := by
  simp only [drain, hl]
  suffices hqueue : ∀ queue, l.queued = queue →
      ∃ l', (queue.foldl (fun h _ => h.deliver k) h).listeners[k]? = some l' ∧ l'.id = l.id ∧
        l'.queued = [] ∧ l'.handled = l.handled ++ queue from hqueue _ rfl
  intro queue hqueue
  induction queue generalizing h l with
  | nil => exact ⟨l, hl, rfl, hqueue, by rw [List.append_nil]⟩
  | cons m queue ih =>
    have hnext : (h.deliver k).listeners[k]? =
        some { l with queued := queue, handled := l.handled ++ [m] } := by
      rw [deliver_eq, List.getElem?_modify_eq, hl, Option.map_eq_map, Option.map_some,
        Listener.next, hqueue]
    obtain ⟨l', hl', hid, hempty, hhandled⟩ := ih hnext rfl
    exact ⟨l', hl', hid, hempty, by rw [hhandled, List.append_assoc, List.singleton_append]⟩

/-! ### Without one of the listeners -/

/-- What is left of several steps when the listener in place `k` does nothing. -/
def without (h : EventHub) (k : Nat) : List HubStep → List HubStep
  | [] => []
  | step :: steps => step.without k h.listeners.length ++ (h.step step).without k steps

/-- Two hubs that differ in one listener and its subscription at most. -/
structure Apart (k : Nat) (h g : EventHub) : Prop where
  lastId : h.lastId = g.lastId
  others : ∀ j, j ≠ k → h.listeners[j]? = g.listeners[j]?
  subscribed : ∀ id, id ≠ k + 1 → (id ∈ h.subscribed ↔ id ∈ g.subscribed)

theorem Numbered.id_eq (hh : h.Numbered) {l : Listener} (hl : h.listeners[k]? = some l) :
    l.id = k + 1 := by
  have hid : (List.range' 1 h.lastId)[k]? = some l.id := by
    rw [← hh.ids, List.getElem?_map, hl, Option.map_some]
  obtain ⟨_, hid⟩ := List.getElem?_eq_some_iff.1 hid
  rw [← hid, List.getElem_range']
  omega

theorem Numbered.length_eq (hh : h.Numbered) : h.listeners.length = h.lastId := by
  simpa using congrArg List.length hh.ids

theorem mem_subscribed_step {id : Nat} {step : HubStep} :
    id ∈ (h.step step).subscribed ↔
      id ∈ h.subscribed ∧ h.ends id step = false ∨ step.subscribes = true ∧ id = h.lastId + 1 := by
  rw [(h.subscribed_step step).2, List.mem_append, List.mem_filter, Bool.not_eq_true']
  cases step.subscribes <;> simp

/-- A step of the listener that is left out makes no difference to the others. -/
theorem Apart.skip (happart : Apart k h g) {a : HubStep} (hstep : a.subscribes = false)
    (hothers : ∀ j, j ≠ k → (h.step a).listeners[j]? = h.listeners[j]?)
    (hends : ∀ id, id ≠ k + 1 → h.ends id a = false) : Apart k (h.step a) g := by
  refine ⟨?_, fun j hj => (hothers j hj).trans (happart.others j hj), fun id hid => ?_⟩
  · rw [(h.subscribed_step a).1, hstep, if_neg Bool.false_ne_true, Nat.add_zero, happart.lastId]
  · rw [mem_subscribed_step, hends id hid, hstep, ← happart.subscribed id hid]
    simp

/-- A step that both hubs take, and that is of the same consequence to all others, keeps them
apart. -/
theorem Apart.both (happart : Apart k h g) {a b : HubStep}
    (hstep : a.subscribes = b.subscribes)
    (hothers : ∀ j, j ≠ k → (h.step a).listeners[j]? = (g.step b).listeners[j]?)
    (hends : ∀ id, id ≠ k + 1 → h.ends id a = g.ends id b) :
    Apart k (h.step a) (g.step b) := by
  refine ⟨?_, hothers, fun id hid => ?_⟩
  · rw [(h.subscribed_step a).1, (g.subscribed_step b).1, hstep, happart.lastId]
  · rw [mem_subscribed_step, mem_subscribed_step, hends id hid, hstep, happart.lastId,
      happart.subscribed id hid]

/-- Two hubs that differ in one listener at most still do so when one of them takes a step and the
other what is left of it without that listener. -/
theorem Apart.step (happart : Apart k h g) (hh : h.Numbered) (hg : g.Numbered) (step : HubStep) :
    Apart k (h.step step) (g.run (step.without k h.listeners.length)) := by
  have hlength : h.listeners.length = g.listeners.length := by
    rw [hh.length_eq, hg.length_eq, happart.lastId]
  cases step with
  | publish m =>
    refine happart.both (a := .publish m) (b := .publish m) rfl (fun j hj => ?_)
      fun _ _ => rfl
    simp only [EventHub.step, publish, List.getElem?_map, ← happart.others j hj]
    cases hget : h.listeners[j]? with
    | none => rfl
    | some l =>
      have hid : l.id ≠ k + 1 := by
        rw [hh.id_eq hget]
        omega
      have hsame : h.isSubscribed l.id = g.isSubscribed l.id := by
        rw [Bool.eq_iff_iff, isSubscribed_iff, isSubscribed_iff, happart.subscribed _ hid]
      rw [Option.map_some, Option.map_some, hsame]
  | close => exact happart.both (a := .close) (b := .close) rfl happart.others fun _ _ => rfl
  | use use =>
    cases use with
    | subscribe react =>
      refine happart.both (a := .use (.subscribe react))
        (b := .use (.subscribe (if h.listeners.length = k then fun _ => .returns else react)))
        rfl (fun j hj => ?_) fun _ _ => rfl
      simp only [EventHub.step, EventHub.use, subscribe]
      obtain hlt | rfl | hgt := Nat.lt_trichotomy j h.listeners.length
      · rw [List.getElem?_append_left hlt, List.getElem?_append_left (hlength ▸ hlt),
          happart.others j hj]
      · rw [List.getElem?_concat_length, hlength, List.getElem?_concat_length,
          if_neg (hlength ▸ hj), happart.lastId]
      · rw [List.getElem?_eq_none (by simpa using Nat.succ_le_of_lt hgt),
          List.getElem?_eq_none (by simpa using hlength ▸ Nat.succ_le_of_lt hgt)]
    | unsubscribe id =>
      rw [HubStep.without]
      split
      · rename_i hid
        refine happart.skip rfl (fun _ _ => rfl) fun other hother => ?_
        rw [ends, hid, beq_eq_false_iff_ne]
        exact Ne.symm hother
      · exact happart.both (a := .use (.unsubscribe id)) (b := .use (.unsubscribe id)) rfl
          happart.others fun _ _ => rfl
    | deliver index =>
      rw [HubStep.without]
      split
      · rename_i hindex
        subst hindex
        refine happart.skip rfl (fun j hj => ?_) fun id hid => ?_
        · rw [EventHub.step, EventHub.use, deliver_eq, List.getElem?_modify_ne _ _ hj.symm]
        · rw [Bool.eq_false_iff]
          intro hends
          obtain ⟨l, hget, hl⟩ := exists_of_ends_deliver hends
          exact hid (hl.symm.trans (hh.id_eq hget))
      · rename_i hindex
        refine happart.both (a := .use (.deliver index)) (b := .use (.deliver index)) rfl
          (fun j hj => ?_) fun id _ => ?_
        · simp only [EventHub.step, EventHub.use, deliver_eq, List.getElem?_modify,
            happart.others j hj]
        · simp only [ends, happart.others index hindex]
    | addReceiver =>
      exact happart.both (a := .use .addReceiver) (b := .use .addReceiver) rfl
        happart.others fun _ _ => rfl
    | dropReceiver index =>
      exact happart.both (a := .use (.dropReceiver index)) (b := .use (.dropReceiver index))
        rfl happart.others fun _ _ => rfl
    | receive index =>
      refine happart.both (a := .use (.receive index)) (b := .use (.receive index)) rfl
        (fun j hj => ?_) fun _ _ => rfl
      rw [EventHub.step, EventHub.use, h.receive_eq, EventHub.step, EventHub.use, g.receive_eq]
      exact happart.others j hj

/-- A hub that takes what is left of a run without one of the listeners hands the same to all
others. -/
theorem Apart.run (happart : Apart k h g) (hh : h.Numbered) (hg : g.Numbered)
    (steps : List HubStep) : Apart k (h.run steps) (g.run (h.without k steps)) := by
  induction steps generalizing h g with
  | nil => exact happart
  | cons step steps ih =>
    rw [without, run_append]
    exact ih (happart.step hh hg step) (hh.step step) (hg.run _)

/-- Unsubscribing answers whether the subscription is in force. -/
theorem removes_eq (h : EventHub) (id : Nat) : h.removes id = h.isSubscribed id := by
  rw [Bool.eq_iff_iff, isSubscribed_iff, removes, bne_iff_ne, size, size, unsubscribe, Ne,
    List.length_filter_eq_length_iff]
  simp

/-- **A listener handles what is published while it is subscribed, once each and in order.** A hub
has gone through any steps. The listener that was added in one of them has handled a prefix of the
events that were published after that and before its subscription ended for the first time; the rest
of them wait in its queue, and once its worker has emptied the queue it has handled them all.
Subscriptions are numbered in the order in which they are made, whatever ends in between, so that no
number is used twice. Those in force are those that were made and have not ended: unsubscribing
answers whether there is one such, and they are what is counted. What one listener makes of events,
when it is handed them and whether it unsubscribes is of no consequence to any other. -/
theorem handled_in_order (capacity : Nat) (steps : List HubStep) :
    (∀ before react after, steps = before ++ .use (.subscribe react) :: after →
      let made := ((ofCapacity capacity).run before).subscribe react
      let place := made.lastId - 1
      let heard := made.publishedUntil made.lastId after
      ∃ l l', ((ofCapacity capacity).run steps).listeners[place]? = some l ∧
        l.id = made.lastId ∧ l.handled <+: heard ∧ l.handled ++ l.queued = heard ∧
        (((ofCapacity capacity).run steps).drain place).listeners[place]? = some l' ∧
        l'.id = made.lastId ∧ l'.queued = [] ∧ l'.handled = heard) ∧
    ((ofCapacity capacity).run steps).listeners.map (·.id) =
      List.range' 1 (steps.countP (·.subscribes)) ∧
    ((ofCapacity capacity).lasting steps).Nodup ∧
    (∀ id, ((ofCapacity capacity).run steps).removes id =
      ((ofCapacity capacity).lasting steps).contains id) ∧
    ((ofCapacity capacity).run steps).size = ((ofCapacity capacity).lasting steps).length ∧
    ∀ k j, j ≠ k →
      ((ofCapacity capacity).run steps).listeners[j]? =
        ((ofCapacity capacity).run ((ofCapacity capacity).without k steps)).listeners[j]? := by
  have hnew := numbered_ofCapacity capacity
  have hnumbered := hnew.run steps
  have hlast : ((ofCapacity capacity).run steps).lastId = steps.countP (·.subscribes) := by
    rw [lastId_run, ofCapacity, Nat.zero_add]
  have hlasting : ((ofCapacity capacity).run steps).subscribed =
      (ofCapacity capacity).lasting steps := by
    rw [subscribed_run]
    rfl
  refine ⟨?_, hlast ▸ hnumbered.ids, hlasting ▸ hnumbered.once, fun id => ?_, ?_, fun k j hj => ?_⟩
  · intro before react after hsteps made place heard
    have hbefore := hnew.run before
    have hplace : ((ofCapacity capacity).run before).listeners.length = place := hbefore.length_eq
    have hl : made.listeners[place]? = some { id := made.lastId, react } := by
      rw [← hplace]
      exact List.getElem?_concat_length
    have hmade : made.isSubscribed made.lastId = true :=
      (isSubscribed_iff _ _).2 (List.mem_append_right _ (List.mem_singleton.2 rfl))
    have hrun : (ofCapacity capacity).run steps = made.run after := by
      rw [hsteps, run_append]
      rfl
    obtain ⟨l, hget, hid, hgiven⟩ := listeners_run hl (Nat.le_refl _) after
    rw [if_pos hmade, List.append_nil, List.nil_append] at hgiven
    obtain ⟨l', hget', hid', hempty, hhandled⟩ := listeners_drain hget
    rw [hrun]
    exact ⟨l, l', hget, hid, ⟨l.queued, hgiven⟩, hgiven, hget', hid'.trans hid, hempty,
      hhandled.trans hgiven⟩
  · rw [removes_eq, isSubscribed, hlasting]
  · rw [size, hlasting]
  · have happart : Apart k (ofCapacity capacity) (ofCapacity capacity) :=
      ⟨rfl, fun _ _ => rfl, fun _ _ => Iff.rfl⟩
    exact (happart.run hnew hnew steps).others j hj

/-- The event that a connection is gone. -/
def gone (connection : UInt8) : Message :=
  ⟨.connectionDisconnected, connection, .known .success, ()⟩

/-- There is a listener that panics, and one that unsubscribes at its first event. That one is
handed the first event when the second one waits in its queue, and the third one is published after
that. -/
def twoListeners : List HubStep :=
  [.use (.subscribe fun _ => .panics), .use (.subscribe fun _ => .unsubscribes), .publish (gone 1),
    .publish (gone 2), .use (.deliver 0), .use (.deliver 1), .publish (gone 3), .use (.deliver 0),
    .close]

/-- The listener that unsubscribes gets the two events, once its worker has handed over what waits
in its queue, and not the third. -/
theorem handled_in_order_twoListeners :
    ∃ l l', ((ofCapacity 4).run twoListeners).listeners[1]? = some l ∧
      l.handled <+: [gone 1, gone 2] ∧
      (((ofCapacity 4).run twoListeners).drain 1).listeners[1]? = some l' ∧
      l'.handled = [gone 1, gone 2] := by
  obtain ⟨l, l', hl, -, hprefix, -, hl', -, -, hhandled⟩ :=
    (handled_in_order 4 twoListeners).1 [_] (fun _ => .unsubscribes) _ rfl
  exact ⟨l, l', hl, hprefix, hl', hhandled⟩

end EventHub

end BleHost
