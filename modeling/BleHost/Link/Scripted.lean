import BleHost.Link.Basic

/-!
# Scripted links

A link without a module behind it. It is a byte stream: the answers of the script, whatever is
injected and any noise end up in one queue and are read from it in pieces. Writes are compared with
a script of expected requests and, where they match, put the scripted answer into the queue; both
directions can be made to fail.
-/

namespace BleHost

/-- A request that the script expects and the bytes that answer it. -/
structure Expectation where
  request : List UInt8
  response : List UInt8
deriving DecidableEq, Repr

/-- A simulated failure of reading. -/
inductive ReadFault
  /-- Every attempt fails. -/
  | failing (reason : String)
  /-- Every attempt finds the end of the stream. -/
  | ended
deriving DecidableEq, Repr

/-- A link that follows a script. -/
structure ScriptedLink where
  /-- What is still expected, next first. -/
  script : List Expectation := []
  /-- Bytes waiting to be read. -/
  inbox : List UInt8 := []
  /-- The writes that reached the script, in order. -/
  sent : List (List UInt8) := []
  connected : Bool := true
  readFault : Option ReadFault := none
  /-- Whether every write fails. -/
  writeFault : Bool := false
  /-- The most bytes that one read gives, if that is limited. -/
  chunk : Option Nat := none
deriving DecidableEq, Repr

namespace ScriptedLink

/-- Expect a further request. -/
def expect (l : ScriptedLink) (request response : List UInt8) : ScriptedLink :=
  { l with script := l.script ++ [⟨request, response⟩] }

/-- Limit how many bytes one read gives; it always gives one. -/
def limitChunk (l : ScriptedLink) (size : Nat) : ScriptedLink :=
  { l with chunk := some (max size 1) }

/-- Have bytes arrive. -/
def inject (l : ScriptedLink) (bytes : List UInt8) : ScriptedLink :=
  { l with inbox := l.inbox ++ bytes }

/-- Write one byte string. Nothing that is refused for want of a connection or because of a fault
reaches the script; all else takes the next expectation, matching or not. -/
def write (l : ScriptedLink) (bytes : List UInt8) : Except Error Unit × ScriptedLink :=
  if !l.connected then (.error .notConnected, l)
  else if l.writeFault then (.error (.link "simulated write failure"), l)
  else
    let l := { l with sent := l.sent ++ [bytes] }
    match l.script with
    | [] => (.ok (), l)
    | next :: script =>
      let l := { l with script }
      if next.request = bytes then (.ok (), l.inject next.response)
      else (.error (.protocol
        (s!"unexpected send data: expected {Text.hexList next.request}, "
          ++ s!"got {Text.hexList bytes}")), l)

/-- Read at most `room` bytes; no answer means that the read has to wait. A fault goes before bytes
that are waiting, and a closed link before everything. -/
def read (l : ScriptedLink) (room : Nat) : Option (Except Error (List UInt8)) × ScriptedLink :=
  if !l.connected then (some (.error .notConnected), l)
  else match l.readFault with
    | some (.failing reason) => (some (.error (.link reason)), l)
    | some .ended => (some (.ok []), l)
    | none =>
      if l.inbox.isEmpty then (none, l)
      else
        let size := min room (l.chunk.getD room)
        (some (.ok (l.inbox.take size)), { l with inbox := l.inbox.drop size })

/-- Close the link, which loses the bytes that wait to be read. -/
def close (l : ScriptedLink) : ScriptedLink := { l with connected := false, inbox := [] }

end ScriptedLink

end BleHost
