import BleHost.Error

/-!
# The life of a session

A session is alive until its link fails for good or somebody ends it. Those who asked for it are
told of the failure, once, and nobody is told of an orderly end.
-/

namespace BleHost

/-- Somebody to tell of a failure, and whether telling him breaks off whoever does the telling. -/
structure LifecycleListener where
  id : Nat
  panics : Bool := false
deriving DecidableEq, Repr

/-- Whether the session is over, who is to be told, and who has been told what. -/
structure Lifecycle where
  dead : Bool := false
  listeners : List LifecycleListener := []
  told : List (Nat × Error) := []
deriving DecidableEq, Repr

namespace Lifecycle

/-- Ask to be told. -/
def listen (l : Lifecycle) (listener : LifecycleListener) : Lifecycle :=
  { l with listeners := l.listeners ++ [listener] }

/-- Those who are told when each is told in turn: all up to the first that breaks it off. -/
def reached : List LifecycleListener → List LifecycleListener
  | [] => []
  | listener :: rest => if listener.panics then [listener] else listener :: reached rest

/-- The link has failed for good. Only the first end of a session is told of. -/
def terminate (l : Lifecycle) (cause : Error) : Lifecycle :=
  if l.dead then l
  else
    { dead := true
      listeners := []
      told := l.told ++ (reached l.listeners).map fun listener => (listener.id, cause) }

/-- Whether telling of a failure now would break off the teller. -/
def breaksOff (l : Lifecycle) : Bool := !l.dead && l.listeners.any (·.panics)

/-- The session is ended in good order. The answer is whether it was alive until then. -/
def stop (l : Lifecycle) : Bool × Lifecycle := (!l.dead, { l with dead := true, listeners := [] })

end Lifecycle

end BleHost
