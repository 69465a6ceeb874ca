import BleHost.Message.Basic

/-!
# Outstanding exchanges

A command whose response is awaited has a waiter, made before the command is queued so that no
response can come too early for it. A response goes to the oldest waiter for its identity, and an
event to none, whatever its identity.
-/

namespace BleHost

/-- Somebody who waits for a response, and the identity of that response. -/
structure Waiter where
  id : Nat
  expects : Identity
deriving DecidableEq, Repr

/-- The waiters, oldest first, and all responses that were offered to them so far. The numbers of
waiters go up from one and are never used again. -/
structure Outstanding where
  lastId : Nat := 0
  waiters : List Waiter := []
  offered : List (Identity × Message) := []
  closed : Bool := false
deriving DecidableEq

namespace Outstanding

/-- How many responses are awaited. -/
def size (o : Outstanding) : Nat := o.waiters.length

/-- Wait for a response, unless it is too late for that. -/
def register (o : Outstanding) (expects : Identity) : Option (Nat × Outstanding) :=
  if o.closed then none
  else some (o.lastId + 1,
    { o with lastId := o.lastId + 1, waiters := o.waiters ++ [⟨o.lastId + 1, expects⟩] })

/-- Stop waiting. -/
def remove (o : Outstanding) (id : Nat) : Outstanding :=
  { o with waiters := o.waiters.filter (·.id != id) }

/-- The oldest waiter for an identity. -/
def oldest? (o : Outstanding) (id : Identity) : Option Waiter :=
  if id.isEvent then none else o.waiters.find? (·.expects == id)

/-- Offer a response to the oldest waiter for its identity, who takes it and waits no more. -/
def offer (o : Outstanding) (id : Identity) (m : Message) : Option Nat × Outstanding :=
  let o := { o with offered := o.offered ++ [(id, m)] }
  match o.oldest? id with
  | none => (none, o)
  | some w => (some w.id, o.remove w.id)

/-- Let nobody wait any more. -/
def close (o : Outstanding) : Outstanding := { o with waiters := [], closed := true }

end Outstanding

end BleHost
