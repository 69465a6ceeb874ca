import BleHost.Link.Timed
import Mathlib.Data.List.Basic
import Mathlib.Data.List.Induction

/-!
# A scripted link is a byte stream

A scripted link is shared between those who write to it and read from it and those who direct it:
who write the script, have bytes arrive, make either direction fail and limit what a read gives.
Reads that find nothing wait, are woken when there is something new, and may be given up
(`SharedLink`). Whatever is done with the link until it is closed, in whatever order, no byte is
lost, repeated or overtaken (`SharedLink.balance_step`, `SharedLink.balance_run`). A read that waits
on a clock is such a course of events (`TimedLink.receive_course`).
-/

namespace BleHost

namespace ScriptedLink

variable {l : ScriptedLink}

/-- What answers a write: the response to the request that is expected next, if that is what is
written and writing does not fail. -/
def answer? (l : ScriptedLink) (bytes : List UInt8) : Option (List UInt8) :=
  if l.connected && !l.writeFault then
    match l.script with
    | next :: _ => if next.request = bytes then some next.response else none
    | [] => none
  else none

/-- Why a write is refused before it reaches the script, if it is. -/
def refusal? (l : ScriptedLink) : Option Error :=
  if !l.connected then some .notConnected
  else if l.writeFault then some (.link "simulated write failure")
  else none

/-- What is wrong with a write that reaches the script: it is not what is expected next. -/
def objection? (l : ScriptedLink) (bytes : List UInt8) : Option Error :=
  match l.script with
  | next :: _ =>
    if next.request = bytes then none
    else some (.protocol (s!"unexpected send data: expected {Text.hexList next.request}, "
      ++ s!"got {Text.hexList bytes}"))
  | [] => none

/-- The most bytes that a read into so much room gives. -/
def portion (l : ScriptedLink) (room : Nat) : Nat := min room (l.chunk.getD room)

/-- The outcome of something that may have gone wrong. -/
def outcome : Option Error → Except Error Unit
  | some e => .error e
  | none => .ok ()

/-- A write that is refused changes nothing. -/
theorem write_of_refused {e : Error} (hrefused : l.refusal? = some e) (bytes : List UInt8) :
    l.write bytes = (.error e, l) := by
  unfold refusal? at hrefused
  unfold write
  split at hrefused
  · rename_i hconnected
    obtain rfl := Option.some.inj hrefused
    rw [if_pos hconnected]
  · rename_i hconnected
    split at hrefused
    · rename_i hfault
      obtain rfl := Option.some.inj hrefused
      rw [if_neg hconnected, if_pos hfault]
    · cases hrefused

/-- Any other write is put on record and uses up what is expected next, whether or not it is that.
If it is, the response is there to be read. -/
theorem write_of_accepted (haccepted : l.refusal? = none) (bytes : List UInt8) :
    l.write bytes = (outcome (l.objection? bytes),
      { l with
        sent := l.sent ++ [bytes]
        script := l.script.tail
        inbox := l.inbox ++ (l.answer? bytes).getD [] }) := by
  unfold refusal? at haccepted
  split at haccepted
  · cases haccepted
  · rename_i hconnected
    split at haccepted
    · cases haccepted
    · rename_i hfault
      have hopen : (l.connected && !l.writeFault) = true := by
        rw [Bool.not_eq_true, Bool.not_eq_false'] at hconnected
        rw [Bool.not_eq_true] at hfault
        rw [hconnected, hfault]
        rfl
      unfold write answer? objection?
      rw [if_neg hconnected, if_neg hfault, if_pos hopen]
      rcases l with ⟨_ | ⟨next, script⟩, inbox, sent, connected, readFault, writeFault, chunk⟩
      · simp [outcome]
      · dsimp only
        by_cases hmatch : next.request = bytes
        · simp [hmatch, outcome, inject]
        · simp [hmatch, outcome]

theorem answer?_of_refused {e : Error} (hrefused : l.refusal? = some e) (bytes : List UInt8) :
    l.answer? bytes = none := by
  unfold refusal? at hrefused
  unfold answer?
  rw [if_neg]
  rintro hopen
  rw [Bool.and_eq_true, Bool.not_eq_true'] at hopen
  rw [hopen.1, hopen.2] at hrefused
  cases hrefused

/-- What comes of a look for bytes. -/
inductive Looks (l : ScriptedLink) (room : Nat) :
    Option (Except Error (List UInt8)) × ScriptedLink → Prop
  | closed (hclosed : l.connected = false) : Looks l room (some (.error .notConnected), l)
  | failing (hopen : l.connected = true) (reason : String)
    (hfault : l.readFault = some (.failing reason)) : Looks l room (some (.error (.link reason)), l)
  | ended (hopen : l.connected = true) (hfault : l.readFault = some .ended) :
    Looks l room (some (.ok []), l)
  | empty (hopen : l.connected = true) (hfault : l.readFault = none) (hempty : l.inbox = []) :
    Looks l room (none, l)
  | bytes (hopen : l.connected = true) (hfault : l.readFault = none) (hsome : l.inbox ≠ []) :
    Looks l room (some (.ok (l.inbox.take (l.portion room))),
      { l with inbox := l.inbox.drop (l.portion room) })

theorem looks_read (l : ScriptedLink) (room : Nat) : Looks l room (l.read room) := by
  unfold read
  split
  · rename_i hconnected
    rw [Bool.not_eq_true'] at hconnected
    exact .closed hconnected
  · rename_i hconnected
    have hopen : l.connected = true := by
      rwa [Bool.not_eq_true, Bool.not_eq_false'] at hconnected
    split
    · exact .failing hopen _ ‹_›
    · exact .ended hopen ‹_›
    · rename_i hfault
      split
      · exact .empty hopen hfault (List.isEmpty_iff.1 ‹_›)
      · rename_i hsome
        exact .bytes hopen hfault fun hempty => hsome (List.isEmpty_iff.2 hempty)

end ScriptedLink

/-! ### What is done with a link -/

/-- A read that waits: how many bytes it has room for, and whether it is to look again. -/
structure WaitingRead where
  room : Nat
  woken : Bool := false
deriving DecidableEq, Repr

/-- A scripted link and the reads that wait on it. -/
structure SharedLink where
  link : ScriptedLink := {}
  waiting : List WaitingRead := []
deriving DecidableEq, Repr

/-- Something that is done with a shared link. -/
inductive LinkStep
  | expect (request response : List UInt8)
  | limitChunk (size : Nat)
  | inject (bytes : List UInt8)
  /-- Reading fails from now on, or does so no longer. -/
  | faultReads (fault : Option ReadFault)
  /-- Writing fails from now on, or does so no longer. -/
  | faultWrites (fails : Bool)
  | write (bytes : List UInt8)
  /-- A read begins. -/
  | read (room : Nat)
  /-- A read that has been woken looks again. -/
  | lookAgain (place : Nat)
  /-- The time of a waiting read is over. -/
  | expire (place : Nat)
  /-- A waiting read is given up. -/
  | cancel (place : Nat)
  | close
deriving DecidableEq, Repr

/-- What comes of a step. -/
inductive LinkResult
  | nothing
  | written (result : Except Error Unit)
  | read (result : Except Error (List UInt8))
deriving DecidableEq

/-- The bytes that are read in a step. -/
def LinkResult.bytes : LinkResult → List UInt8
  | read (.ok bytes) => bytes
  | _ => []

/-- Whether a read does something in a step: it looks for bytes, is out of time or is given up. -/
def LinkStep.reads : LinkStep → Bool
  | read _ | lookAgain _ | expire _ | cancel _ => true
  | _ => false

/-- The limit that is set in a step on what a read gives. There is always room for one byte. -/
def LinkStep.limit? : LinkStep → Option Nat
  | limitChunk size => some (max size 1)
  | _ => none

/-- What is expected from a step on, when all that was expected before has been used up. -/
def LinkStep.expectation? : LinkStep → Option Expectation
  | expect request response => some ⟨request, response⟩
  | _ => none

/-- What reading comes to from a step on. -/
def LinkStep.readFault? : LinkStep → Option (Option ReadFault)
  | faultReads fault => some fault
  | _ => none

/-- Whether writing fails from a step on. -/
def LinkStep.writeFault? : LinkStep → Option Bool
  | faultWrites fails => some fails
  | _ => none

/-- What a read may get from a link, and what it leaves there. -/
inductive ScriptedLink.Gives (l : ScriptedLink) (room? : Option Nat) :
    LinkResult → ScriptedLink → Prop
  /-- It waits or is given up. -/
  | nothing : Gives l room? .nothing l
  | error (e : Error) : Gives l room? (.read (.error e)) l
  | ended (hfault : l.readFault = some .ended) : Gives l room? (.read (.ok [])) l
  | noRoom (hroom : room? = some 0) : Gives l room? (.read (.ok [])) l
  /-- It gets bytes from the front of those that are there. -/
  | bytes (room : Nat) (bytes rest : List UInt8) (hroom : room? = some room)
    (hfault : l.readFault = none) (hinbox : l.inbox = bytes ++ rest) (hpos : 0 < bytes.length)
    (hle : bytes.length ≤ min room (l.chunk.getD room)) :
    Gives l room? (.read (.ok bytes)) { l with inbox := rest }

/-- Whether whoever writes or reads in a step is told that there is no connection. -/
inductive LinkResult.Refuses : LinkResult → Prop
  | nothing : Refuses nothing
  | written : Refuses (written (.error .notConnected))
  | read : Refuses (read (.error .notConnected))

theorem LinkResult.Refuses.bytes_eq {result : LinkResult} (hrefuses : result.Refuses) :
    result.bytes = [] := by
  cases hrefuses <;> rfl

namespace SharedLink

/-- Wake all reads that wait. -/
def wake (s : SharedLink) : SharedLink :=
  { s with waiting := s.waiting.map fun r => { r with woken := true } }

/-- Let a read look for bytes. It waits if there is no answer. -/
def look (s : SharedLink) (room : Nat) : LinkResult × SharedLink :=
  match s.link.read room with
  | (some result, link) => (.read result, { s with link })
  | (none, link) => (.nothing, { link, waiting := s.waiting ++ [{ room }] })

/-- A shared link without one of the reads that wait. -/
def without (s : SharedLink) (place : Nat) : SharedLink :=
  { s with waiting := s.waiting.eraseIdx place }

/-- Do something with a link. A read that has been woken looks again before its time is over. -/
def step (s : SharedLink) : LinkStep → LinkResult × SharedLink
  | .expect request response => (.nothing, { s with link := s.link.expect request response })
  | .limitChunk size => (.nothing, { s with link := s.link.limitChunk size })
  | .inject bytes => (.nothing, { s with link := s.link.inject bytes }.wake)
  | .faultReads (some fault) =>
    (.nothing, { s with link := { s.link with readFault := some fault } }.wake)
  | .faultReads none => (.nothing, { s with link := { s.link with readFault := none } })
  | .faultWrites fails => (.nothing, { s with link := { s.link with writeFault := fails } })
  | .write bytes =>
    let written : SharedLink := { s with link := (s.link.write bytes).2 }
    (.written (s.link.write bytes).1,
      if (s.link.answer? bytes).isSome then written.wake else written)
  | .read room => s.look room
  | .lookAgain place =>
    match s.waiting[place]? with
    | some ⟨room, true⟩ => (s.without place).look room
    | _ => (.nothing, s)
  | .expire place =>
    match s.waiting[place]? with
    | some ⟨_, false⟩ => (.read (.error .timeout), s.without place)
    | _ => (.nothing, s)
  | .cancel place => (.nothing, s.without place)
  | .close => (.nothing, { s with link := s.link.close }.wake)

/-- Do several things with a link. -/
def run (s : SharedLink) (steps : List LinkStep) : SharedLink :=
  steps.foldl (fun s step => (s.step step).2) s

/-- What comes of several steps, in order. -/
def results (s : SharedLink) : List LinkStep → List LinkResult
  | [] => []
  | step :: steps => (s.step step).1 :: (s.step step).2.results steps

/-- The bytes that are there to be read because of a step: what is injected, and the response to the
expected write. -/
def gain (s : SharedLink) : LinkStep → List UInt8
  | .inject bytes => bytes
  | .write bytes => (s.link.answer? bytes).getD []
  | _ => []

/-- The bytes that are there to be read because of several steps, in order. -/
def gains (s : SharedLink) : List LinkStep → List UInt8
  | [] => []
  | step :: steps => s.gain step ++ (s.step step).2.gains steps

/-- The bytes that are read in several steps, in order. -/
def bytesRead (s : SharedLink) (steps : List LinkStep) : List UInt8 :=
  (s.results steps).flatMap (·.bytes)

/-- What is used up of the script in a step: by a write that is put on record, what is expected
next. -/
def spends (s : SharedLink) : LinkStep → List Expectation
  | .write _ => if s.link.refusal? = none then s.link.script.take 1 else []
  | _ => []

/-- What is used up of the script in several steps, in order. -/
def spent (s : SharedLink) : List LinkStep → List Expectation
  | [] => []
  | step :: steps => s.spends step ++ (s.step step).2.spent steps

/-- A link is as its history has it. The limit and the faults are those that were set last; the
script is what has been expected, in order, without what has been used up; and there is a connection
until it is closed. -/
structure Follows (steps : List LinkStep) (s : SharedLink) : Prop where
  chunk : s.link.chunk = (steps.filterMap LinkStep.limit?).getLast?
  script : spent {} steps ++ s.link.script = steps.filterMap LinkStep.expectation?
  readFault : s.link.readFault = (steps.filterMap LinkStep.readFault?).getLast?.getD none
  writeFault : s.link.writeFault = (steps.filterMap LinkStep.writeFault?).getLast?.getD false
  connected : s.link.connected = true ↔ .close ∉ steps

/-- How much room the read has that looks for bytes in a step. -/
def room? (s : SharedLink) : LinkStep → Option Nat
  | .read room => some room
  | .lookAgain place => s.waiting[place]?.map (·.room)
  | _ => none

/-- The limit on what a read gives leaves room for a byte. -/
def Flows (s : SharedLink) : Prop := ∀ size, s.link.chunk = some size → 0 < size

/-- The link is closed, and the reads that waited for it are to look again. -/
structure Shut (s : SharedLink) : Prop where
  closed : s.link.connected = false
  woken : ∀ r ∈ s.waiting, r.woken = true

/-- A read waits, without having been woken, only while there is nothing for it. -/
def Attentive (s : SharedLink) : Prop :=
  ∀ r ∈ s.waiting, r.woken = false →
    s.link.connected = true ∧ s.link.readFault = none ∧ s.link.inbox = []

variable {s : SharedLink}

/-! ### What a step does -/

@[simp] theorem link_wake (s : SharedLink) : s.wake.link = s.link := rfl

@[simp] theorem link_without (s : SharedLink) (place : Nat) : (s.without place).link = s.link := rfl

theorem woken_wake (s : SharedLink) : ∀ r ∈ s.wake.waiting, r.woken = true := by
  intro r hr
  obtain ⟨r, -, rfl⟩ := List.mem_map.1 hr
  rfl

/-- What a write does to the link and what comes of it. -/
theorem step_write (s : SharedLink) (bytes : List UInt8) :
    (s.step (.write bytes)).1 = .written (s.link.write bytes).1 ∧
      (s.step (.write bytes)).2.link = (s.link.write bytes).2 := by
  refine ⟨rfl, ?_⟩
  rw [step]
  dsimp only
  split <;> rfl

/-- A write that is refused changes nothing. -/
theorem step_of_refused {e : Error} (hrefused : s.link.refusal? = some e) (bytes : List UInt8) :
    s.step (.write bytes) = (.written (.error e), s) := by
  have hanswer : ¬ (s.link.answer? bytes).isSome = true := by
    rw [ScriptedLink.answer?_of_refused hrefused]
    exact Bool.false_ne_true
  rw [step, if_neg hanswer, ScriptedLink.write_of_refused hrefused]

/-- A read that looks for bytes takes what it gets from the front of those that are there. -/
theorem link_look (s : SharedLink) (room : Nat) :
    s.link.inbox = (s.look room).1.bytes ++ (s.look room).2.link.inbox ∧
      (s.look room).2.link = { s.link with inbox := (s.look room).2.link.inbox } := by
  have hlooks := s.link.looks_read room
  unfold look
  generalize s.link.read room = came at hlooks ⊢
  cases hlooks with
  | bytes hopen hfault hsome => exact ⟨(List.take_append_drop _ _).symm, rfl⟩
  | _ => exact ⟨rfl, rfl⟩

/-- A read that looks for bytes gets at least one, and no more than it may, unless it fails, is at
the end of the stream, has no room or has to wait. -/
theorem gives_look (hflows : s.Flows) (room : Nat) :
    s.link.Gives (some room) (s.look room).1 (s.look room).2.link := by
  have hlooks := s.link.looks_read room
  unfold look
  generalize s.link.read room = came at hlooks ⊢
  cases hlooks with
  | closed hclosed => exact .error .notConnected
  | failing hopen reason hfault => exact .error (.link reason)
  | ended hopen hfault => exact .ended hfault
  | empty hopen hfault hempty => exact .nothing
  | bytes hopen hfault hsome =>
    rcases Nat.eq_zero_or_pos room with rfl | hroom
    · have hportion : s.link.portion 0 = 0 := Nat.zero_min _
      rw [hportion]
      exact .noRoom rfl
    · have hportion : 0 < s.link.portion room := by
        unfold ScriptedLink.portion
        cases hchunk : s.link.chunk with
        | none => rwa [Option.getD_none, Nat.min_self]
        | some size =>
          have := hflows size hchunk
          rw [Option.getD_some]
          omega
      have hinbox := List.length_pos_of_ne_nil hsome
      refine .bytes room _ _ rfl hfault (List.take_append_drop _ _).symm ?_ ?_
      · rw [List.length_take]
        omega
      · exact List.length_take_le _ _

theorem look_of_closed (hclosed : s.link.connected = false) (room : Nat) :
    s.look room = (.read (.error .notConnected), s) := by
  rw [look, ScriptedLink.read, hclosed]
  rfl

/-- What is there to be read before a step, and what it adds, has been read or is there to be read
after it. -/
theorem balance_step (s : SharedLink) {step : LinkStep} (hstep : step ≠ .close) :
    s.link.inbox ++ s.gain step = (s.step step).1.bytes ++ (s.step step).2.link.inbox := by
  cases step with
  | close => exact absurd rfl hstep
  | write bytes =>
    obtain ⟨hresult, hlink⟩ := s.step_write bytes
    rw [hresult, hlink]
    rcases hrefused : s.link.refusal? with _ | e
    · rw [ScriptedLink.write_of_accepted hrefused]
      rfl
    · rw [ScriptedLink.write_of_refused hrefused, gain, s.link.answer?_of_refused hrefused]
      exact List.append_nil _
  | read room => exact (List.append_nil _).trans (s.link_look room).1
  | lookAgain place =>
    refine (List.append_nil _).trans ?_
    rw [step]
    split
    · exact ((s.without place).link_look _).1
    · rfl
  | expire place =>
    refine (List.append_nil _).trans ?_
    rw [step]
    split <;> rfl
  | faultReads fault =>
    refine (List.append_nil _).trans ?_
    cases fault <;> rfl
  | inject bytes => rfl
  | _ => exact List.append_nil _

/-- Whatever a read does, it leaves the link as it is or gets bytes from it. -/
theorem gives_step (hflows : s.Flows) {step : LinkStep} (hreads : step.reads = true) :
    s.link.Gives (s.room? step) (s.step step).1 (s.step step).2.link := by
  cases step with
  | read room => exact gives_look hflows room
  | lookAgain place =>
    rw [SharedLink.step]
    split
    · rename_i room hwaiting
      rw [room?, hwaiting]
      exact gives_look (s := s.without place) hflows room
    · exact .nothing
  | expire place =>
    rw [SharedLink.step]
    split
    · exact .error .timeout
    · exact .nothing
  | cancel place => exact .nothing
  | _ => cases hreads

/-- Limits, faults and the script are changed by the steps that set them, by writes that are put on
record and by nothing else. -/
theorem settings_step (s : SharedLink) (step : LinkStep) :
    (s.step step).2.link.chunk = step.limit?.or s.link.chunk ∧
      s.link.script ++ step.expectation?.toList = s.spends step ++ (s.step step).2.link.script ∧
      (s.step step).2.link.readFault = step.readFault?.getD s.link.readFault ∧
      (s.step step).2.link.writeFault = step.writeFault?.getD s.link.writeFault ∧
      ((s.step step).2.link.connected = true ↔ s.link.connected = true ∧ .close ≠ step) := by
  have hscript : s.link.script ++ [] = s.link.script := List.append_nil _
  have hopen {step : LinkStep} (hstep : .close ≠ step) :
      s.link.connected = true ↔ s.link.connected = true ∧ .close ≠ step :=
    (and_iff_left hstep).symm
  cases step with
  | write bytes =>
    obtain ⟨-, hlink⟩ := s.step_write bytes
    rw [hlink, spends]
    rcases hrefused : s.link.refusal? with _ | e
    · rw [ScriptedLink.write_of_accepted hrefused, if_pos rfl]
      refine ⟨rfl, hscript.trans ?_, rfl, rfl, hopen nofun⟩
      exact (List.take_append_drop 1 _).symm.trans (by rw [List.drop_one])
    · rw [ScriptedLink.write_of_refused hrefused, if_neg nofun]
      exact ⟨rfl, hscript, rfl, rfl, hopen nofun⟩
  | read room =>
    obtain ⟨-, hlink⟩ := s.link_look room
    rw [SharedLink.step, hlink]
    exact ⟨rfl, hscript, rfl, rfl, hopen nofun⟩
  | lookAgain place =>
    rw [SharedLink.step]
    split
    · rename_i room _
      obtain ⟨-, hlink⟩ := (s.without place).link_look room
      rw [hlink]
      exact ⟨rfl, hscript, rfl, rfl, hopen nofun⟩
    · exact ⟨rfl, hscript, rfl, rfl, hopen nofun⟩
  | expire place =>
    rw [SharedLink.step]
    split <;> exact ⟨rfl, hscript, rfl, rfl, hopen nofun⟩
  | faultReads fault => cases fault <;> exact ⟨rfl, hscript, rfl, rfl, hopen nofun⟩
  | expect request response => exact ⟨rfl, rfl, rfl, rfl, hopen nofun⟩
  | close => exact ⟨rfl, hscript, rfl, rfl, iff_of_false nofun fun h => h.2 rfl⟩
  | _ => exact ⟨rfl, hscript, rfl, rfl, hopen nofun⟩

theorem attentive_wake (s : SharedLink) : s.wake.Attentive := by
  intro r hr hasleep
  rw [s.woken_wake r hr] at hasleep
  cases hasleep

theorem Attentive.without (hattentive : s.Attentive) (place : Nat) : (s.without place).Attentive :=
  fun r hr => hattentive r (List.mem_of_mem_eraseIdx hr)

/-- A read that looks for bytes waits if there is nothing for it. The others that wait find what
they found before: there is something to be taken only if they have been woken. -/
theorem Attentive.look (hattentive : s.Attentive) (room : Nat) : (s.look room).2.Attentive := by
  have hlooks := s.link.looks_read room
  unfold SharedLink.look
  generalize s.link.read room = came at hlooks ⊢
  cases hlooks with
  | empty hopen hfault hempty =>
    intro r hr hasleep
    exact ⟨hopen, hfault, hempty⟩
  | bytes hopen hfault hsome =>
    intro r hr hasleep
    exact absurd (hattentive r hr hasleep).2.2 hsome
  | _ => exact hattentive

/-- Whatever is news for reads that wait wakes them. -/
theorem Attentive.step (hattentive : s.Attentive) (step : LinkStep) :
    (s.step step).2.Attentive := by
  cases step with
  | inject bytes => exact attentive_wake _
  | close => exact attentive_wake _
  | faultReads fault =>
    cases fault with
    | some fault => exact attentive_wake _
    | none =>
      intro r hr hasleep
      obtain ⟨hopen, -, hempty⟩ := hattentive r hr hasleep
      exact ⟨hopen, rfl, hempty⟩
  | write bytes =>
    rcases hrefused : s.link.refusal? with _ | e
    · rw [SharedLink.step]
      dsimp only
      split
      · exact attentive_wake _
      · rename_i hanswer
        intro r hr hasleep
        obtain ⟨hopen, hfault, hempty⟩ := hattentive r hr hasleep
        rw [ScriptedLink.write_of_accepted hrefused]
        refine ⟨hopen, hfault, ?_⟩
        rw [hempty, Option.not_isSome_iff_eq_none.1 hanswer]
        rfl
    · rw [step_of_refused hrefused]
      exact hattentive
  | read room => exact hattentive.look room
  | lookAgain place =>
    rw [SharedLink.step]
    split
    · exact (hattentive.without place).look _
    · exact hattentive
  | expire place =>
    rw [SharedLink.step]
    split
    · exact hattentive.without place
    · exact hattentive
  | cancel place => exact hattentive.without place
  | _ => exact hattentive

theorem Shut.refusal?_eq (hshut : s.Shut) : s.link.refusal? = some .notConnected := by
  rw [ScriptedLink.refusal?, hshut.closed]
  rfl

/-- A read that waited when the link was closed is told so. -/
theorem Shut.lookAgain (hshut : s.Shut) {place : Nat} (hplace : place < s.waiting.length) :
    (s.step (.lookAgain place)).1 = .read (.error .notConnected) := by
  have hwaiting : s.waiting[place]? = some ⟨s.waiting[place].room, true⟩ := by
    rw [List.getElem?_eq_getElem hplace, ← hshut.woken _ (List.getElem_mem hplace)]
  rw [SharedLink.step, hwaiting]
  dsimp only
  rw [look_of_closed (s := s.without place) hshut.closed]

/-- A closed link stays closed. Whoever writes or reads is told so, and so are the reads that waited
when it was closed. -/
theorem Shut.step (hshut : s.Shut) (step : LinkStep) :
    (s.step step).2.Shut ∧ (s.step step).1.Refuses := by
  obtain ⟨hclosed, hwoken⟩ := hshut
  have hwithout : ∀ place, (s.without place).Shut :=
    fun place => ⟨hclosed, fun r hr => hwoken r (List.mem_of_mem_eraseIdx hr)⟩
  cases step with
  | write bytes =>
    rw [step_of_refused (Shut.refusal?_eq ⟨hclosed, hwoken⟩)]
    exact ⟨⟨hclosed, hwoken⟩, .written⟩
  | read room =>
    rw [SharedLink.step, look_of_closed hclosed]
    exact ⟨⟨hclosed, hwoken⟩, .read⟩
  | lookAgain place =>
    rw [SharedLink.step]
    split
    · rw [look_of_closed (hwithout place).closed]
      exact ⟨hwithout place, .read⟩
    · exact ⟨⟨hclosed, hwoken⟩, .nothing⟩
  | expire place =>
    rw [SharedLink.step]
    split
    · -- All reads that wait are to look again before their time is over.
      rename_i room hwaiting
      cases hwoken _ (List.mem_of_getElem? hwaiting)
    · exact ⟨⟨hclosed, hwoken⟩, .nothing⟩
  | cancel place => exact ⟨hwithout place, .nothing⟩
  | inject bytes => exact ⟨⟨hclosed, s.woken_wake⟩, .nothing⟩
  | close => exact ⟨⟨rfl, s.woken_wake⟩, .nothing⟩
  | faultReads fault =>
    cases fault with
    | none => exact ⟨⟨hclosed, hwoken⟩, .nothing⟩
    | some fault => exact ⟨⟨hclosed, s.woken_wake⟩, .nothing⟩
  | _ => exact ⟨⟨hclosed, hwoken⟩, .nothing⟩

/-! ### Over a run -/

theorem run_append (s : SharedLink) (before after : List LinkStep) :
    s.run (before ++ after) = (s.run before).run after := List.foldl_append

theorem results_append (s : SharedLink) (before after : List LinkStep) :
    s.results (before ++ after) = s.results before ++ (s.run before).results after := by
  induction before generalizing s with
  | nil => rfl
  | cons step before ih => rw [List.cons_append, results, ih, results]; rfl

theorem gains_append (s : SharedLink) (before after : List LinkStep) :
    s.gains (before ++ after) = s.gains before ++ (s.run before).gains after := by
  induction before generalizing s with
  | nil => rfl
  | cons step before ih => rw [List.cons_append, gains, ih, gains, List.append_assoc]; rfl

/-- Until the link is closed, what there was to be read and what came to be has been read or is
there to be read, in order. -/
theorem balance_run (s : SharedLink) {steps : List LinkStep} (hopen : LinkStep.close ∉ steps) :
    s.link.inbox ++ s.gains steps = s.bytesRead steps ++ (s.run steps).link.inbox := by
  induction steps generalizing s with
  | nil => exact List.append_nil _
  | cons step steps ih =>
    rw [List.mem_cons, not_or] at hopen
    have hstep := s.balance_step (Ne.symm hopen.1)
    have hrest := ih (s.step step).2 hopen.2
    calc s.link.inbox ++ s.gains (step :: steps)
        = s.link.inbox ++ s.gain step ++ (s.step step).2.gains steps := by
          rw [gains, List.append_assoc]
      _ = (s.step step).1.bytes ++ ((s.step step).2.link.inbox ++ (s.step step).2.gains steps) := by
          rw [hstep, List.append_assoc]
      _ = s.bytesRead (step :: steps) ++ (s.run (step :: steps)).link.inbox := by
          rw [hrest, ← List.append_assoc]
          rfl

theorem spent_append (s : SharedLink) (before after : List LinkStep) :
    s.spent (before ++ after) = s.spent before ++ (s.run before).spent after := by
  induction before generalizing s with
  | nil => rfl
  | cons step before ih => rw [List.cons_append, spent, ih, spent, List.append_assoc]; rfl

theorem filterMap_concat {α : Type} (f : LinkStep → Option α) (steps : List LinkStep)
    (step : LinkStep) : (steps ++ [step]).filterMap f = steps.filterMap f ++ (f step).toList := by
  rw [List.filterMap_append]
  cases h : f step <;> simp [h]

/-- What was set last, after one more step that may set it. -/
theorem getLast?_filterMap_concat {α : Type} (f : LinkStep → Option α) (steps : List LinkStep)
    (step : LinkStep) : ((steps ++ [step]).filterMap f).getLast? =
      (f step).or (steps.filterMap f).getLast? := by
  rw [filterMap_concat, List.getLast?_append]
  cases f step <;> rfl

/-- Whatever is done with a link, it is as its history has it. -/
theorem follows_run (steps : List LinkStep) : Follows steps (run {} steps) := by
  induction steps using List.reverseRecOn with
  | nil => exact ⟨rfl, rfl, rfl, rfl, by simp [run]⟩
  | append_singleton steps step ih =>
    obtain ⟨hchunk, hscript, hreadFault, hwriteFault, hconnected⟩ :=
      (run {} steps).settings_step step
    have hrun : run {} (steps ++ [step]) = ((run {} steps).step step).2 :=
      run_append {} steps [step]
    rw [hrun]
    refine ⟨?_, ?_, ?_, ?_, ?_⟩
    · rw [hchunk, getLast?_filterMap_concat, ih.chunk]
    · rw [filterMap_concat, ← ih.script, List.append_assoc, hscript, spent_append, spent, spent,
        List.append_nil, List.append_assoc]
    · rw [hreadFault, getLast?_filterMap_concat, ih.readFault]
      cases step.readFault? <;> rfl
    · rw [hwriteFault, getLast?_filterMap_concat, ih.writeFault]
      cases step.writeFault? <;> rfl
    · rw [hconnected, ih.connected, List.mem_append, List.mem_singleton, not_or]

/-- Every limit leaves room for a byte. -/
theorem flows_run (steps : List LinkStep) : (run {} steps).Flows := by
  intro size hsize
  rw [(follows_run steps).chunk] at hsize
  obtain ⟨step, -, hlimit⟩ := List.mem_filterMap.1 (List.mem_of_getLast? hsize)
  cases step with
  | limitChunk size' =>
    obtain rfl := Option.some.inj hlimit
    omega
  | _ => cases hlimit

theorem Attentive.run (hattentive : s.Attentive) (steps : List LinkStep) :
    (s.run steps).Attentive := by
  induction steps generalizing s with
  | nil => exact hattentive
  | cons step steps ih => exact ih (hattentive.step step)

theorem Shut.run (hshut : s.Shut) (steps : List LinkStep) :
    (s.run steps).Shut ∧ ∀ result ∈ s.results steps, result.Refuses := by
  induction steps generalizing s with
  | nil => exact ⟨hshut, fun _ hresult => (List.not_mem_nil hresult).elim⟩
  | cons step steps ih =>
    obtain ⟨hshut', hrefuses⟩ := hshut.step step
    obtain ⟨hrun, hresults⟩ := ih hshut'
    refine ⟨hrun, fun result hresult => ?_⟩
    rcases List.mem_cons.1 hresult with rfl | hresult
    · exact hrefuses
    · exact hresults result hresult

theorem shut_close (s : SharedLink) : (s.step .close).2.Shut := ⟨rfl, s.woken_wake⟩

/-! ### Reads on a clock -/

/-- What is done with a link while a read goes on until it has a result: some bytes arrive. -/
structure Course (s : SharedLink) (steps : List LinkStep) (arrived : List Arrival)
    (result : Except Error (List UInt8)) (link : ScriptedLink) : Prop where
  unclosed : LinkStep.close ∉ steps
  run : s.run steps = ⟨link, []⟩
  results : ∃ quiet, s.results steps = List.replicate quiet .nothing ++ [.read result]
  gains : s.gains steps = arrived.flatMap (·.bytes)

/-- A read that waits and has been woken. -/
def lastCall (link : ScriptedLink) (room : Nat) : SharedLink := ⟨link, [⟨room, true⟩]⟩

theorem lookAgain_lastCall (link : ScriptedLink) (room : Nat) :
    (lastCall link room).step (.lookAgain 0) = (⟨link, []⟩ : SharedLink).look room := rfl

theorem course_of_read {link link' : ScriptedLink} {room : Nat}
    {result : Except Error (List UInt8)} (hread : link.read room = (some result, link')) :
    (lastCall link room).Course [.lookAgain 0] [] result link' := by
  have hstep : (lastCall link room).step (.lookAgain 0) = (.read result, ⟨link', []⟩) := by
    rw [lookAgain_lastCall, look, hread]
  refine ⟨by simp, ?_, ⟨0, ?_⟩, rfl⟩
  · rw [SharedLink.run, List.foldl_cons, hstep, List.foldl_nil]
  · rw [SharedLink.results, hstep]
    rfl

/-- A read that finds nothing waits. -/
theorem lookAgain_of_none {link link' : ScriptedLink} {room : Nat}
    (hread : link.read room = (none, link')) :
    (lastCall link room).step (.lookAgain 0) = (.nothing, ⟨link', [⟨room, false⟩]⟩) := by
  rw [lookAgain_lastCall, look, hread]
  rfl

theorem course_of_expiry {link link' : ScriptedLink} {room : Nat}
    (hread : link.read room = (none, link')) :
    (lastCall link room).Course [.lookAgain 0, .expire 0] [] (.error .timeout) link' := by
  refine ⟨by simp, ?_, ⟨1, ?_⟩, rfl⟩
  · rw [SharedLink.run, List.foldl_cons, lookAgain_of_none hread]
    rfl
  · rw [SharedLink.results, lookAgain_of_none hread]
    rfl

/-- A read goes on after some bytes have arrived, of which it takes no notice yet. -/
theorem Course.after {s' : SharedLink} {quiet steps : List LinkStep}
    {arrived arrived' : List Arrival} {result : Except Error (List UInt8)} {link : ScriptedLink}
    (hcourse : s'.Course steps arrived' result link) (hopen : LinkStep.close ∉ quiet)
    (hrun : s.run quiet = s') (hresults : s.results quiet = List.replicate quiet.length .nothing)
    (hgains : s.gains quiet = arrived.flatMap (·.bytes)) :
    s.Course (quiet ++ steps) (arrived ++ arrived') result link := by
  obtain ⟨hopen', hrun', ⟨count, hresults'⟩, hgains'⟩ := hcourse
  refine ⟨?_, ?_, ⟨quiet.length + count, ?_⟩, ?_⟩
  · rw [List.mem_append, not_or]
    exact ⟨hopen, hopen'⟩
  · rw [run_append, hrun, hrun']
  · rw [results_append, hresults, hrun, hresults', ← List.append_assoc,
      List.replicate_append_replicate]
  · rw [gains_append, hgains, hrun, hgains', List.flatMap_append]

/-- Reading adds nothing to what is there, hence the bytes that arrived in the meantime are
accounted for. -/
theorem Course.balance {steps : List LinkStep} {arrived : List Arrival}
    {result : Except Error (List UInt8)} {link : ScriptedLink}
    (hcourse : s.Course steps arrived result link) :
    s.link.inbox ++ arrived.flatMap (·.bytes) = (LinkResult.read result).bytes ++ link.inbox := by
  obtain ⟨hopen, hrun, ⟨count, hresults⟩, hgains⟩ := hcourse
  have hbalance := s.balance_run hopen
  have hnothing : (List.replicate count LinkResult.nothing).flatMap (·.bytes) = [] := by
    rw [List.flatMap_eq_nil_iff]
    intro result hresult
    rw [(List.mem_replicate.1 hresult).2]
    rfl
  rwa [hrun, hgains, bytesRead, hresults, List.flatMap_append, hnothing, List.nil_append,
    List.flatMap_cons, List.flatMap_nil, List.append_nil] at hbalance

end SharedLink

namespace TimedLink

open SharedLink

/-- Bytes that are due arrive one after the other, while a read waits that has been woken. -/
theorem arrive_course (moment room : Nat) (link : ScriptedLink) (arrivals : List Arrival) :
    ∃ arrived, arrivals = arrived ++ (arrive moment link arrivals).2 ∧
      let steps := arrived.map fun a => LinkStep.inject a.bytes
      (lastCall link room).run steps = lastCall (arrive moment link arrivals).1 room ∧
      (lastCall link room).results steps = List.replicate arrived.length .nothing ∧
      (lastCall link room).gains steps = arrived.flatMap (·.bytes) := by
  induction arrivals generalizing link with
  | nil => exact ⟨[], rfl, rfl, rfl, rfl⟩
  | cons a rest ih =>
    rw [arrive]
    split
    · obtain ⟨arrived, hsplit, hrun, hresults, hgains⟩ := ih (link.inject a.bytes)
      refine ⟨a :: arrived, congrArg (a :: ·) hsplit, hrun, ?_, ?_⟩
      · exact congrArg (LinkResult.nothing :: ·) hresults
      · exact congrArg (a.bytes ++ ·) hgains
    · exact ⟨[], rfl, rfl, rfl, rfl⟩

/-- A read that waits on a clock takes its course: it looks for bytes whenever some have arrived,
until it has a result or its time is over. -/
theorem awaitBytes_course (room deadline now : Nat) (link : ScriptedLink)
    (arrivals : List Arrival) :
    ∃ steps arrived, arrivals = arrived ++ (awaitBytes room deadline now link arrivals).2.arrivals ∧
      (lastCall link room).Course (.lookAgain 0 :: steps) arrived
        (awaitBytes room deadline now link arrivals).1
        (awaitBytes room deadline now link arrivals).2.link := by
  fun_induction awaitBytes room deadline now link arrivals with
  | case1 now link arrivals result link' hread => exact ⟨[], [], rfl, course_of_read hread⟩
  | case2 now link link' hread => exact ⟨[.expire 0], [], rfl, course_of_expiry hread⟩
  | case4 now link link' hread a rest hlate => exact ⟨[.expire 0], [], rfl, course_of_expiry hread⟩
  | case3 now link link' hread a rest hdue ih =>
    obtain ⟨steps, arrived', hsplit', hcourse⟩ := ih
    obtain ⟨arrived, hsplit, hrun, hresults, hgains⟩ :=
      arrive_course (max now a.due) room (link'.inject a.bytes) rest
    have hwaits := lookAgain_of_none hread
    -- The first bytes wake the read; those that are due with them arrive before it looks again.
    have hwakes : (⟨link', [⟨room, false⟩]⟩ : SharedLink).step (.inject a.bytes) =
        (.nothing, lastCall (link'.inject a.bytes) room) := rfl
    let quiet : List LinkStep := .lookAgain 0 :: .inject a.bytes :: arrived.map fun a =>
      .inject a.bytes
    have hopen : LinkStep.close ∉ quiet := by simp [quiet]
    have hreached : (lastCall link room).run quiet =
        lastCall (arrive (max now a.due) (link'.inject a.bytes) rest).1 room := by
      rw [SharedLink.run, List.foldl_cons, List.foldl_cons, hwaits, hwakes]
      exact hrun
    have hquiet : (lastCall link room).results quiet = List.replicate quiet.length .nothing := by
      rw [SharedLink.results, SharedLink.results, hwaits, hwakes, hresults]
      simp [quiet, List.replicate_succ]
    have hgained : (lastCall link room).gains quiet = (a :: arrived).flatMap (·.bytes) := by
      rw [SharedLink.gains, SharedLink.gains, hwaits, hwakes, hgains]
      rfl
    refine ⟨quiet.tail ++ .lookAgain 0 :: steps, (a :: arrived) ++ arrived', ?_,
      hcourse.after hopen hreached hquiet hgained⟩
    rw [List.append_assoc, ← hsplit', List.cons_append, ← hsplit]

/-- A read on a clock is something that is done with the link while bytes arrive: a read begins, is
woken by them and looks again, and has a result or is out of time. -/
theorem receive_course (t : TimedLink) (room timeout : Nat) :
    ∃ steps arrived, t.arrivals = arrived ++ (t.receive room timeout).2.arrivals ∧
      (⟨t.link, []⟩ : SharedLink).Course (.read room :: steps) arrived (t.receive room timeout).1
        (t.receive room timeout).2.link := by
  obtain ⟨steps, arrived, hsplit, hopen, hrun, hresults, hgains⟩ :=
    awaitBytes_course room (t.now + timeout) t.now t.link t.arrivals
  refine ⟨steps, arrived, hsplit, ?_, hrun, hresults, hgains⟩
  rw [List.mem_cons, not_or] at hopen ⊢
  exact ⟨nofun, hopen.2⟩

end TimedLink

namespace SharedLink

/-- **A scripted link is a byte stream that loses nothing, with a script that is followed in
order.** Anything is done with it. Until it is closed, the bytes that have been read and those that
are still there to be read are the ones that were injected and the responses to the writes that were
expected next, in the order in which they came. What is expected, the limit and the faults are at
all times as its history has them. At any moment, a write that is refused, for want of a connection
or because writing fails, changes nothing; any other is put on record and uses up what is expected
next, whether or not it is that. A read that waits, fails, is out of time, is at the end of the
stream or is given up takes no bytes; any other that has room gets some, as many as it has room for
and the limit allows at most. Once the link is closed, all who write or read, and those whose reads
waited for it, are told that there is no connection. A read that waits on a clock while bytes arrive
gets what was there before and what has arrived in the meantime, or leaves it there. -/
theorem lossless (steps : List LinkStep) :
    (LinkStep.close ∉ steps →
      bytesRead {} steps ++ (run {} steps).link.inbox = gains {} steps) ∧
    Follows steps (run {} steps) ∧
    (∀ bytes,
      let s := run {} steps
      (∀ e, s.link.refusal? = some e → s.step (.write bytes) = (.written (.error e), s)) ∧
      (s.link.refusal? = none →
        (s.step (.write bytes)).1 = .written (ScriptedLink.outcome (s.link.objection? bytes)) ∧
        (s.step (.write bytes)).2.link = { s.link with
          sent := s.link.sent ++ [bytes]
          script := s.link.script.tail
          inbox := s.link.inbox ++ (s.link.answer? bytes).getD [] })) ∧
    (∀ step, step.reads = true →
      let s := run {} steps
      s.link.Gives (s.room? step) (s.step step).1 (s.step step).2.link) ∧
    (∀ r ∈ (run {} steps).waiting, r.woken = false →
      (run {} steps).link.readFault = none ∧ (run {} steps).link.inbox = []) ∧
    (∀ later,
      let s := run {} (steps ++ .close :: later)
      (∀ bytes, (s.step (.write bytes)).1 = .written (.error .notConnected)) ∧
      (∀ room, (s.step (.read room)).1 = .read (.error .notConnected)) ∧
      (∀ place, place < s.waiting.length →
        (s.step (.lookAgain place)).1 = .read (.error .notConnected)) ∧
      ∀ result ∈ results (run {} (steps ++ [.close])) later, result.Refuses) ∧
    ∀ (t : TimedLink) (room timeout : Nat),
      let (result, t') := t.receive room timeout
      ∃ arrived, t.arrivals = arrived ++ t'.arrivals ∧
        t.link.inbox ++ arrived.flatMap (·.bytes) =
          (LinkResult.read result).bytes ++ t'.link.inbox := by
  refine ⟨fun hopen => ?_, follows_run steps,
    fun bytes => ⟨fun e hrefused => ?_, fun haccepted => ?_⟩, fun step hreads => ?_,
    fun r hr hasleep => ?_, fun later => ?_, fun t room timeout => ?_⟩
  · exact (balance_run {} hopen).symm
  · exact step_of_refused hrefused bytes
  · obtain ⟨hresult, hlink⟩ := (run {} steps).step_write bytes
    rw [hresult, hlink, ScriptedLink.write_of_accepted haccepted]
    exact ⟨rfl, rfl⟩
  · exact gives_step (flows_run steps) hreads
  · have hattentive : Attentive {} := fun r hr => (List.not_mem_nil hr).elim
    exact (hattentive.run steps r hr hasleep).2
  · obtain ⟨hshut, hrefuses⟩ := (shut_close (run {} steps)).run later
    intro s
    have hs : s = ((run {} steps).step .close).2.run later := run_append {} steps (.close :: later)
    rw [← hs] at hshut
    refine ⟨fun bytes => ?_, fun room => ?_, fun place hplace => ?_, ?_⟩
    · rw [step_of_refused hshut.refusal?_eq bytes]
    · rw [step, look_of_closed hshut.closed]
    · exact hshut.lookAgain hplace
    · rw [run_append]
      exact hrefuses
  · obtain ⟨_, arrived, hsplit, hcourse⟩ := t.receive_course room timeout
    exact ⟨arrived, hsplit, hcourse.balance⟩

/-- A read waits when the first expected write comes, and gets three of the four bytes that answer
it. The second write is not the one that is expected, and there is no answer to the third. -/
def threeWrites : List LinkStep :=
  [.expect [0, 0, 0, 1] [0, 0, 0, 1], .expect [0, 0, 1, 1] [0, 0, 1, 1], .limitChunk 3, .read 8,
    .write [0, 0, 0, 1], .lookAgain 0, .write [0, 0, 0, 1], .inject [0x80, 2], .write [0, 0, 1, 1],
    .read 2]

/-- The bytes of the first answer and those that arrive by themselves are read in this order, up to
the last one, which stays. -/
theorem lossless_threeWrites :
    [0, 0, 0] ++ [1, 0x80] ++ [2] = gains {} threeWrites ∧
      (step (run {} threeWrites) .close).2.bytesRead [.inject [3], .read 8] = [] ∧
      (step (run {} (threeWrites ++ [.close])) (.read 8)).1 = .read (.error .notConnected) := by
  have hread : bytesRead {} threeWrites ++ (run {} threeWrites).link.inbox =
      [0, 0, 0] ++ [1, 0x80] ++ [2] := by decide +kernel
  refine ⟨hread.symm.trans ((lossless threeWrites).1 (by decide)), by decide +kernel, ?_⟩
  exact ((lossless threeWrites).2.2.2.2.2.1 []).2.1 8

end SharedLink

end BleHost
