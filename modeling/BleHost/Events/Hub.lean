import BleHost.Events.Broadcast

/-!
# Handing out events

Events go to listeners and to the receivers of one broadcast stream. A listener has a queue of its
own, which a worker of its own empties whenever it gets to run; publishing never waits for it.
Events that were queued for a listener still reach it after it has been unsubscribed or the hub has
been closed, and what a listener does with an event is of no consequence to the others.
-/

namespace BleHost

/-- How a listener's handling of an event ends. -/
inductive Reaction
  | returns
  /-- It breaks off; the listener gets later events all the same. -/
  | panics
  /-- It returns after it has unsubscribed the listener itself. -/
  | unsubscribes
deriving DecidableEq, Repr

/-- A listener: its subscription, how it reacts to events, what waits in its queue and what it has
been handed. -/
structure Listener where
  id : Nat
  react : Message → Reaction
  queued : List Message := []
  handled : List Message := []

/-- A receiver of the broadcast stream: how many messages it is done with, and whether it is still
in use. -/
structure Receiver where
  position : Nat
  inUse : Bool := true
deriving DecidableEq, Repr

/-- Subscriptions, the listeners ever added, and the broadcast stream with its receivers. -/
structure EventHub where
  stream : Broadcast
  lastId : Nat := 0
  subscribed : List Nat := []
  listeners : List Listener := []
  receivers : List Receiver := []

namespace EventHub

/-- A hub whose stream keeps at least `capacity` events. -/
def ofCapacity (capacity : Nat) : EventHub := { stream := .ofCapacity capacity }

/-! ### Listeners -/

/-- Add a listener, whose subscription gets the next number. -/
def subscribe (h : EventHub) (react : Message → Reaction) : EventHub :=
  { h with
    lastId := h.lastId + 1
    subscribed := h.subscribed ++ [h.lastId + 1]
    listeners := h.listeners ++ [{ id := h.lastId + 1, react }] }

/-- Whether a subscription is in force. -/
def isSubscribed (h : EventHub) (id : Nat) : Bool := h.subscribed.contains id

/-- End a subscription. -/
def unsubscribe (h : EventHub) (id : Nat) : EventHub :=
  { h with subscribed := h.subscribed.filter (· != id) }

/-- The number of subscriptions in force. -/
def size (h : EventHub) : Nat := h.subscribed.length

/-- Queue an event for every subscribed listener and put it on the stream. -/
def publish (h : EventHub) (m : Message) : EventHub :=
  { h with
    stream := h.stream.publish m
    listeners := h.listeners.map fun l =>
      if h.isSubscribed l.id then { l with queued := l.queued ++ [m] } else l }

/-- End all subscriptions and the stream. -/
def close (h : EventHub) : EventHub := { h with subscribed := [], stream := h.stream.close }

/-- What is left after a reaction of a listener. -/
def afterReaction (h : EventHub) (id : Nat) : Reaction → EventHub
  | .unsubscribes => h.unsubscribe id
  | .returns | .panics => h

/-- Let the worker of the listener in place `index` hand over the next event in its queue. -/
def deliver (h : EventHub) (index : Nat) : EventHub :=
  match h.listeners[index]? with
  | some ⟨id, react, m :: queued, handled⟩ =>
    { h with listeners := h.listeners.set index ⟨id, react, queued, handled ++ [m]⟩ }.afterReaction
      id (react m)
  | _ => h

/-- Let one worker empty its queue. -/
def drain (h : EventHub) (index : Nat) : EventHub :=
  match h.listeners[index]? with
  | some l => l.queued.foldl (fun h _ => h.deliver index) h
  | none => h

/-- Let every worker empty its queue. -/
def settle (h : EventHub) : EventHub := (List.range h.listeners.length).foldl drain h

/-! ### Receivers -/

/-- Add a receiver of the stream. -/
def receiver (h : EventHub) : EventHub :=
  { h with receivers := h.receivers ++ [{ position := h.stream.tail }] }

/-- Give up a receiver. -/
def dropReceiver (h : EventHub) (index : Nat) : EventHub :=
  { h with receivers := h.receivers.modify index fun r => { r with inUse := false } }

/-- What a receiver gets next. -/
def receive (h : EventHub) (index : Nat) : Received × EventHub :=
  match h.receivers[index]? with
  | some r =>
    let (received, position) := h.stream.receive r.position
    (received, { h with receivers := h.receivers.set index { r with position } })
  | none => (.closed, h)

/-- The number of receivers in use; a closed stream counts none. -/
def receiverCount (h : EventHub) : Nat :=
  if h.stream.closed then 0 else (h.receivers.filter (·.inUse)).length

/-- How many there are of both kinds, spelled out. -/
def describe (h : EventHub) : String :=
  s!"EventDispatcher \x7b subscribers: {h.size}, stream_receivers: {h.receiverCount} \x7d"

end EventHub

end BleHost
