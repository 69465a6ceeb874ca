import BleHost.Console.Desk
import BleHost.Proofs.Devices.History
import BleHost.Proofs.Session.Deadlines
import BleHost.Proofs.Session.Posted
import BleHost.Proofs.Session.Rounds

/-!
# A scan and what happens meanwhile

A console that scans goes on when it can, and meanwhile anything else may happen to its session, one
thing at a time and in any order (`Scan.run?`). Whatever happens, the frames of the instructions
that the console has given are queued in the order in which they were given, as long as it gives
none before the one before it has been acknowledged (`Scan.Ordered`).
-/

namespace BleHost

/-! ### The instructions of a scan -/

namespace ScanStep

/-- The steps of a scan, in order. -/
def all : List ScanStep := [setMode, setScanParameters, discover, endProcedure]

/-- The steps up to one, which is the last of them. -/
def upTo : ScanStep → List ScanStep
  | setMode => [setMode]
  | setScanParameters => [setMode, setScanParameters]
  | discover => [setMode, setScanParameters, discover]
  | endProcedure => all

/-- The command of a step with its parameters: the modes; the interval and the window of the scan,
and whether it is active; the filter. -/
def command (passive : Bool) : ScanStep → Command
  | setMode => ⟨6, 1, [2, 1]⟩
  | setScanParameters => ⟨6, 7, [0x40, 0, 0x30, 0, if passive then 0 else 1]⟩
  | discover => ⟨6, 2, [1]⟩
  | endProcedure => ⟨6, 4, []⟩

/-- The frame of a step. -/
def frame (passive : Bool) (step : ScanStep) : List UInt8 := (step.command passive).bytes

/-- The request of a step, with the usual time limit. -/
def request (passive : Bool) (usual : Nat) (step : ScanStep) : Request :=
  .exchange (step.command passive) (some usual)

theorem upTo_prefix (step : ScanStep) : step.upTo <+: all := by cases step <;> decide

theorem fixed_instruction (passive : Bool) (step : ScanStep) :
    (step.instruction passive).fixed = step.command passive := by
  cases step <;> cases passive <;> rfl

/-- The frames of a scan, byte by byte. -/
theorem frames_eq (passive : Bool) : all.map (frame passive) =
    [[0, 2, 6, 1, 2, 1], [0, 5, 6, 7, 0x40, 0, 0x30, 0, if passive then 0 else 1], [0, 1, 6, 2, 1],
      [0, 0, 6, 4]] := by
  cases passive <;> rfl

end ScanStep

namespace Session

variable {i k : Nat} {s s₀ t : Session} {action : Action} {actions : List Action}

/-! ### Acknowledgements and readings -/

/-- The module has responded to a call that what it asked for has been done: the response has a
result among its fields, and that is success. -/
def Acknowledged (s : Session) (i : Nat) : Prop :=
  ∃ time m, s.stage? i = some (.ended time (.ok (.message m))) ∧
    ("result", ⟨.result, .known .success⟩) ∈ m.values

/-- How a call has ended, it has ended for good. -/
theorem stage?_of_ended {time : Nat} {result : Except Error Outcome}
    (hstep : s.step? action = some t) (hstage : s.stage? i = some (.ended time result)) :
    t.stage? i = some (.ended time result) := by
  obtain ⟨call, hcall, hended⟩ := Option.map_eq_some_iff.1 hstage
  have hafter : t.calls[i]? = some call :=
    (moves_of_step? hstep).call_of_over hcall (by rw [hended]; rfl)
  rw [stage?_eq hafter, hended]

theorem Acknowledged.step (h : s.Acknowledged i) (hstep : s.step? action = some t) :
    t.Acknowledged i := by
  obtain ⟨time, m, hstage, hsuccess⟩ := h
  exact ⟨time, m, stage?_of_ended hstep hstage, hsuccess⟩

/-- What a receiver gets with an action. -/
def yields (k : Nat) (s : Session) : Action → List Received
  | .use (.receive index) => if index = k then [(s.hub.receive k).1] else []
  | _ => []

/-- What a receiver gets during a run, in order. -/
def yielded (k : Nat) (s : Session) (actions : List Action) : List Received :=
  gather (yields k) s actions

theorem yielded_concat (hrun : s.run? actions = some t) (hstep : (t.step? action).isSome = true) :
    s.yielded k (actions ++ [action]) = s.yielded k actions ++ t.yields k action := by
  obtain ⟨u, hu⟩ := Option.isSome_iff_exists.1 hstep
  rw [yielded, gather_append hrun, gather_cons hu, gather, List.append_nil, yielded]

end Session

/-- The report that a receiver gets, if what it gets is an advertisement that was heard. -/
def Received.report? : Received → Option ScanReport
  | message ⟨.gapScanResponse, (rssi, scanType, sender, addressType, bond, data, ())⟩ =>
    some ⟨rssi, scanType, sender, addressType, bond, data⟩
  | _ => none

theorem Received.report?_message (m : Message) : report? (.message m) = m.scanReport? := by
  obtain ⟨kind, fields⟩ := m
  cases kind <;> rfl

/-! ### What a console does -/

namespace Console

/-- A console gives an instruction by the request of its step. -/
theorem instruct_eq (c : Console) (s : Session) (step : ScanStep) (devices : DeviceTable) :
    c.instruct s step devices =
      ({ c with call := s.calls.length, stage := .instructing step devices },
        s.call (step.request c.task.isPassive s.settings.commandTimeout)) := by
  rw [instruct, ScanStep.fixed_instruction]
  rfl

/-- What a console that listens makes of what its stream has, if it has something. -/
def hear? (c : Console) (s : Session) (deadline : Nat) (devices : DeviceTable) :
    Option (Console × Session) :=
  let (received, hub) := s.hub.receive c.receiver
  match received with
  | .message m => some (c.heard deadline devices m, { s with hub })
  | .lagged _ => some (c, { s with hub })
  | .closed => some (c.finish { s with hub } (.error "handler closed during discovery"))
  | .empty => none

theorem listen?_eq (c : Console) (s : Session) (deadline : Nat) (devices : DeviceTable) :
    c.listen? s deadline devices =
      if deadline ≤ s.now then some (c.instruct s .endProcedure devices)
      else c.hear? s deadline devices := rfl

/-- The instruction that a console has given last, with the place of its call, if it waits to hear
how that went. -/
def instruction? (c : Console) : Option (Nat × ScanStep) :=
  match c.stage with
  | .instructing step _ => some (c.call, step)
  | _ => none

/-- What a console that scans does to its session when it goes on and becomes another one: it gives
an instruction, or takes what its stream has. -/
def deeds (c : Console) (s : Session) (c' : Console) : List Action :=
  match c'.instruction? with
  | some (_, step) => [.call (step.request c.task.isPassive s.settings.commandTimeout)]
  | none =>
    match c.stage with
    | .listening _ _ => [.use (.receive c.receiver)]
    | _ => []

end Console

/-! ### Scans -/

/-- A scan under way: the session that it began with, the console and the session as they are now,
the instructions given so far, each with the place of its call, and all that the session has been
through since. -/
structure Scan where
  began : Session
  console : Console
  session : Session
  given : List (Nat × ScanStep)
  actions : List Action

namespace Scan

/-- Something that happens during a scan. -/
inductive Happening
  /-- The console goes on. -/
  | goOn
  /-- The console takes what its stream has, which may come first when its time is over. -/
  | takeIn
  /-- Something else happens to the session. -/
  | other (action : Action)

/-- A scan begins. -/
def start (seconds : Nat) (passive : Bool) (s : Session) : Scan :=
  let (console, session) := Console.start (.discover seconds passive) s
  { began := s, console, session
    given := console.instruction?.toList
    actions :=
      [.use .addReceiver, .call (ScanStep.setMode.request passive s.settings.commandTimeout)] }

/-- The console has gone on. -/
def after (x : Scan) (next : Console × Session) : Scan :=
  { x with
    console := next.1
    session := next.2
    given := x.given ++ next.1.instruction?.toList
    actions := x.actions ++ x.console.deeds x.session next.1 }

/-- Whether others than the console may do something. They neither let go of the session, which the
console has from its owner, nor read in its place. -/
def permits (x : Scan) : Action → Bool
  | .release => false
  | .use (.receive index) => index != x.console.receiver
  | _ => true

/-- What comes of something that happens, if it is possible. -/
def step? (x : Scan) : Happening → Option Scan
  | .goOn => (x.console.resume? x.session).map x.after
  | .takeIn =>
    match x.console.stage with
    | .listening deadline devices => (x.console.hear? x.session deadline devices).map x.after
    | _ => none
  | .other action =>
    if x.permits action then
      (x.session.step? action).map fun session =>
        { x with session, actions := x.actions ++ [action] }
    else none

/-- What comes of several things that happen, if each is possible in its turn. -/
def run? (x : Scan) : List Happening → Option Scan
  | [] => some x
  | happening :: happenings =>
    match x.step? happening with
    | none => none
    | some y => y.run? happenings

/-- What the console has got from its stream so far. -/
def yielded (x : Scan) : List Received := x.began.yielded x.console.receiver x.actions

/-- The reports among that. -/
def reports (x : Scan) : List ScanReport := x.yielded.filterMap Received.report?

variable {x y : Scan} {happening : Happening} {happenings : List Happening} {s₀ t : Session}
  {opening : List Action} {passive : Bool} {action : Action} {settings : Settings}
  {console : Console} {step : ScanStep}

theorem run?_cons_eq_some {z : Scan} :
    x.run? (happening :: happenings) = some z ↔
      ∃ y, x.step? happening = some y ∧ y.run? happenings = some z := by
  cases h : x.step? happening <;> simp [run?, h]

/-- Whatever happens, the console goes on, or takes what its stream has, or somebody else does
something. -/
theorem step?_cases (hstep : x.step? happening = some y) :
    (∃ next, x.console.resume? x.session = some next ∧ y = x.after next) ∨
      (∃ deadline devices next, x.console.stage = .listening deadline devices ∧
        x.console.hear? x.session deadline devices = some next ∧ y = x.after next) ∨
      ∃ action t, x.permits action = true ∧ x.session.step? action = some t ∧
        y = { x with session := t, actions := x.actions ++ [action] } := by
  cases happening with
  | goOn =>
    obtain ⟨next, hresume, rfl⟩ := Option.map_eq_some_iff.1 hstep
    exact .inl ⟨next, hresume, rfl⟩
  | takeIn =>
    unfold step? at hstep
    dsimp only at hstep
    split at hstep
    · rename_i deadline devices hstage
      obtain ⟨next, hhear, rfl⟩ := Option.map_eq_some_iff.1 hstep
      exact .inr (.inl ⟨deadline, devices, next, hstage, hhear, rfl⟩)
    · cases hstep
  | other action =>
    unfold step? at hstep
    dsimp only at hstep
    split at hstep
    · rename_i hpermits
      obtain ⟨t, ht, rfl⟩ := Option.map_eq_some_iff.1 hstep
      exact .inr (.inr ⟨action, t, hpermits, ht, rfl⟩)
    · cases hstep

/-- What a console, or one of its calls, does next on a desk is something that happens during a
scan. -/
theorem exists_happening {d d' : Desk} (hstep : d.step? = some d')
    (hconsole : x.console = d.console) (hsession : x.session = d.bench.session) :
    ∃ happening y, x.step? happening = some y ∧ y.console = d'.console ∧
      y.session = d'.bench.session := by
  unfold Desk.step? at hstep
  split at hstep
  · rename_i bench hturn
    obtain rfl := Option.some.inj hstep
    unfold Bench.callerTurn? at hturn
    split at hturn
    · cases hturn
    · rename_i index rest _
      obtain rfl := Option.some.inj hturn
      refine ⟨.other (.turn index), _, rfl, hconsole, ?_⟩
      rw [hsession]
  · obtain ⟨next, hresume, rfl⟩ := Option.map_eq_some_iff.1 hstep
    refine ⟨.goOn, x.after next, ?_, rfl, rfl⟩
    rw [step?, hconsole, hsession, hresume]
    rfl

/-- What everything that happens keeps, every run keeps. -/
theorem run?_induction {P : Scan → Prop}
    (hstep : ∀ x happening y, P x → x.step? happening = some y → P y)
    (hrun : x.run? happenings = some y) (hx : P x) : P y := by
  induction happenings generalizing x with
  | nil =>
    obtain rfl : x = y := Option.some.inj hrun
    exact hx
  | cons happening happenings ih =>
    obtain ⟨z, hz, hrest⟩ := run?_cons_eq_some.1 hrun
    exact ih hrest (hstep x happening z hx hz)

/-- A console that listens and gives no instruction has taken what its stream had. -/
theorem after_of_listening {deadline : Nat} {devices : DeviceTable} {session : Session}
    (hstage : x.console.stage = .listening deadline devices)
    (hnone : console.instruction? = none) :
    x.after (console, session) =
      { x with
        console
        session
        actions := x.actions ++ [.use (.receive x.console.receiver)] } := by
  simp [after, Console.deeds, hnone, hstage]

/-- A console that waited for an acknowledgement and gives no instruction has left the session as it
is. -/
theorem after_of_instructing {devices : DeviceTable} {session : Session}
    (hstage : x.console.stage = .instructing step devices)
    (hnone : console.instruction? = none) :
    x.after (console, session) = { x with console, session } := by
  simp [after, Console.deeds, hnone, hstage]

/-! ### Places of calls and the ledger -/

/-- Some calls have entries in a ledger, in their order: all of them, or all but the last. -/
def Booked (places : List Nat) (book : List (Nat × Outgoing)) : Prop :=
  (Session.entriesOf places book).map (·.1) = places.dropLast ∨
    (Session.entriesOf places book).map (·.1) = places

/-- If some are all but the last, or all, then so they are together with more of them. -/
theorem append_eq_dropLast_or_eq {α : Type} {l more all : List α}
    (h : l = all.dropLast ∨ l = all) (hmore : more ⊆ all) (hnodup : (l ++ more).Nodup) :
    l ++ more = all.dropLast ∨ l ++ more = all := by
  obtain ⟨-, hmoreNodup, hdisjoint⟩ := List.nodup_append.1 hnodup
  rcases h with rfl | rfl
  · rcases all.eq_nil_or_concat' with rfl | ⟨first, last, rfl⟩
    · exact .inr (List.eq_nil_of_subset_nil hmore)
    · rw [List.dropLast_concat] at hdisjoint ⊢
      have hlast : ∀ a ∈ more, a = last := by
        intro a ha
        rcases List.mem_append.1 (hmore ha) with hfirst | hlast
        · exact absurd rfl (hdisjoint a hfirst a ha)
        · exact List.mem_singleton.1 hlast
      rcases more with _ | ⟨a, _ | ⟨b, rest⟩⟩
      · exact .inl (List.append_nil first)
      · exact .inr (by rw [hlast a List.mem_cons_self])
      · have hab : a = b := (hlast a (by simp)).trans (hlast b (by simp)).symm
        exact absurd (hab ▸ List.mem_cons_self) (List.nodup_cons.1 hmoreNodup).1
  · refine .inr ?_
    cases more with
    | nil => exact List.append_nil l
    | cons a more => exact absurd rfl (hdisjoint a (hmore (by simp)) a (by simp))

namespace Booked

variable {places : List Nat} {book more : List (Nat × Outgoing)} {k : Nat}

/-- A ledger grows. -/
theorem append (h : Booked places book) (hnodup : ((book ++ more).map (·.1)).Nodup) :
    Booked places (book ++ more) := by
  have hsplit : (Session.entriesOf places (book ++ more)).map (·.1) =
      (Session.entriesOf places book).map (·.1) ++ (Session.entriesOf places more).map (·.1) := by
    rw [Session.entriesOf, List.filter_append, List.map_append]
    rfl
  rw [Booked, hsplit]
  refine append_eq_dropLast_or_eq h ?_ ?_
  · intro i hi
    obtain ⟨e, he, rfl⟩ := List.mem_map.1 hi
    exact List.contains_iff_mem.1 (List.mem_filter.1 he).2
  · rw [← hsplit]
    exact hnodup.sublist (List.filter_sublist.map _)

/-- A call comes in that has no entry yet, all others having theirs. -/
theorem concat (h : Booked places book) (hnodup : places.Nodup)
    (hposted : ∀ i ∈ places, i ∈ book.map (·.1)) (hk : k ∉ book.map (·.1)) :
    Booked (places ++ [k]) book := by
  have hentries : Session.entriesOf (places ++ [k]) book = Session.entriesOf places book := by
    refine List.filter_congr fun e he => ?_
    have hne : e.1 ≠ k := fun heq => hk (heq ▸ List.mem_map_of_mem he)
    simp [hne]
  rw [Booked, hentries, List.dropLast_concat]
  rcases h with hall | hall
  · rcases places.eq_nil_or_concat' with rfl | ⟨first, last, rfl⟩
    · exact .inl hall
    · -- the last one has its entry too
      obtain ⟨e, he, rfl⟩ := List.mem_map.1 (hposted last (by simp))
      have hmem : e.1 ∈ (Session.entriesOf (first ++ [e.1]) book).map (·.1) :=
        List.mem_map_of_mem (List.mem_filter.2 ⟨he, by simp⟩)
      rw [hall, List.dropLast_concat] at hmem
      exact absurd rfl ((List.nodup_append.1 hnodup).2.2 e.1 hmem e.1 (by simp))
  · exact .inl hall

end Booked

/-! ### What every action keeps -/

/-- A scan, with all that its session went through before, has given its instructions in order: they
are those of its calls, each but the last has been acknowledged, and so far as they have been queued
they are in the ledger in that order. -/
structure Ordered (s₀ : Session) (opening : List Action) (passive : Bool) (x : Scan) : Prop where
  opened : s₀.run? opening = some x.began
  run : x.began.run? x.actions = some x.session
  kept : x.session.released = false
  asked : ∀ p ∈ x.given, ∃ call : Call, x.session.calls[p.1]? = some call ∧
    call.request = p.2.request passive x.session.settings.commandTimeout
  nodup : (x.given.map (·.1)).Nodup
  acknowledged : ∀ p ∈ x.given.dropLast, x.session.Acknowledged p.1
  booked : Booked (x.given.map (·.1)) (s₀.ledger (opening ++ x.actions))

namespace Ordered

theorem run_all (h : x.Ordered s₀ opening passive) :
    s₀.run? (opening ++ x.actions) = some x.session :=
  Session.run?_append h.opened h.run

theorem reachable (h : x.Ordered s₀ opening passive) (h₀ : Session.ofSettings settings = .ok s₀) :
    x.session.Reachable :=
  (Session.Reachable.refl h₀).run h.run_all

/-- An action adds its entries to the ledger. -/
theorem booked_append (h : x.Ordered s₀ opening passive)
    (h₀ : Session.ofSettings settings = .ok s₀) (hstep : x.session.step? action = some t)
    {places : List Nat} (hbooked : Booked places (s₀.ledger (opening ++ x.actions))) :
    Booked places (s₀.ledger (opening ++ (x.actions ++ [action]))) := by
  have hrun := Session.run?_concat_eq_some.2 ⟨_, h.run_all, hstep⟩
  have hledger : s₀.ledger (opening ++ x.actions ++ [action]) =
      s₀.ledger (opening ++ x.actions) ++ x.session.ledger [action] :=
    Session.gather_append h.run_all
  have honce := (Session.filed h₀ hrun).once
  rw [← List.append_assoc, hledger]
  rw [hledger] at honce
  exact hbooked.append honce

/-- Whatever else happens to the session keeps the order. -/
theorem act (h : x.Ordered s₀ opening passive) (h₀ : Session.ofSettings settings = .ok s₀)
    (hstep : x.session.step? action = some t) (hkeeps : action ≠ .release) (console : Console) :
    Ordered s₀ opening passive
      { x with console, session := t, actions := x.actions ++ [action] } where
  opened := h.opened
  run := Session.run?_concat_eq_some.2 ⟨_, h.run, hstep⟩
  kept := (Session.released_of_step? hstep hkeeps).trans h.kept
  asked := by
    intro p hp
    obtain ⟨call, hcall, hrequest⟩ := h.asked p hp
    obtain ⟨call', hcall', hsame, -⟩ := (Session.Later.of_step? hstep).call _ _ hcall
    have hsettings : t.settings = x.session.settings := (Session.moves_of_step? hstep).settings_eq
    exact ⟨call', hcall', by rw [hsame, hrequest, hsettings]⟩
  nodup := h.nodup
  acknowledged := fun p hp => (h.acknowledged p hp).step hstep
  booked := h.booked_append h₀ hstep h.booked

/-- A call that has been acknowledged has its entry in the ledger. -/
theorem mem_ledger (h : x.Ordered s₀ opening passive) (h₀ : Session.ofSettings settings = .ok s₀)
    {p : Nat × ScanStep} (hp : p ∈ x.given) (hacked : x.session.Acknowledged p.1) :
    p.1 ∈ (s₀.ledger (opening ++ x.actions)).map (·.1) := by
  obtain ⟨call, hcall, hrequest⟩ := h.asked p hp
  obtain ⟨time, m, hstage, -⟩ := hacked
  rw [Session.stage?_eq hcall] at hstage
  refine Session.posted h₀ h.run_all p.1 call hcall ?_ ?_
  · rw [hrequest]
    exact nofun
  · rw [Option.some.inj hstage]
    rfl

/-- The console gives an instruction. -/
theorem give (h : x.Ordered s₀ opening passive) (h₀ : Session.ofSettings settings = .ok s₀)
    (hacked : ∀ p ∈ x.given, x.session.Acknowledged p.1)
    (hstep : x.session.step?
      (.call (step.request passive x.session.settings.commandTimeout)) = some t)
    (console : Console) :
    Ordered s₀ opening passive
      { x with
        console
        session := t
        given := x.given ++ [(x.session.calls.length, step)]
        actions :=
          x.actions ++ [.call (step.request passive x.session.settings.commandTimeout)] } := by
  have hafter := h.act h₀ hstep nofun console
  have hplace : ∀ p ∈ x.given, p.1 < x.session.calls.length := by
    intro p hp
    obtain ⟨call, hcall, -⟩ := h.asked p hp
    exact (List.getElem?_eq_some_iff.1 hcall).1
  have hnew : x.session.calls.length ∉ (s₀.ledger (opening ++ x.actions)).map (·.1) := by
    intro hmem
    obtain ⟨e, he, heq⟩ := List.mem_map.1 hmem
    obtain ⟨call, hcall, -⟩ := (Session.filed h₀ h.run_all).entered e he
    have hlt := (List.getElem?_eq_some_iff.1 hcall).1
    omega
  have hposted : ∀ i ∈ x.given.map (·.1), i ∈ (s₀.ledger (opening ++ x.actions)).map (·.1) := by
    intro i hi
    obtain ⟨p, hp, rfl⟩ := List.mem_map.1 hi
    exact h.mem_ledger h₀ hp (hacked p hp)
  refine { hafter with asked := ?_, nodup := ?_, acknowledged := ?_, booked := ?_ }
  · intro p hp
    rcases List.mem_append.1 hp with hp | hp
    · exact hafter.asked p hp
    · obtain rfl := List.mem_singleton.1 hp
      obtain ⟨call, hcall, hrequest, -⟩ := Session.exists_call_of_step? (h.reachable h₀) hstep
      have hsettings : t.settings = x.session.settings := (Session.moves_of_step? hstep).settings_eq
      exact ⟨call, hcall, by rw [hrequest, hsettings]⟩
  · rw [List.map_append, List.nodup_append]
    refine ⟨h.nodup, List.nodup_singleton _, ?_⟩
    intro i hi j hj
    obtain ⟨p, hp, rfl⟩ := List.mem_map.1 hi
    obtain rfl : j = x.session.calls.length := List.mem_singleton.1 hj
    exact Nat.ne_of_lt (hplace p hp)
  · intro p hp
    rw [List.dropLast_concat] at hp
    exact (hacked p hp).step hstep
  · rw [List.map_append]
    exact h.booked_append h₀ hstep (h.booked.concat h.nodup hposted hnew)

/-- What the link is given of the instructions, it is given in their order. -/
theorem passedOf_prefix (h : x.Ordered s₀ opening passive)
    (h₀ : Session.ofSettings settings = .ok s₀) :
    s₀.passedOf (x.given.map (·.1)) (opening ++ x.actions) <+:
      x.given.map (·.2.frame passive) := by
  have hfiled := Session.filed h₀ h.run_all
  have hentries : (Session.entriesOf (x.given.map (·.1)) (s₀.ledger (opening ++ x.actions))).map
      (·.2.bytes) = ((Session.entriesOf (x.given.map (·.1))
        (s₀.ledger (opening ++ x.actions))).map (·.1)).map x.session.frameOf := by
    rw [List.map_map]
    refine List.map_congr_left fun e he => ?_
    obtain ⟨call, hcall, hframe, -⟩ := hfiled.entered e (List.mem_filter.1 he).1
    exact (Session.frameOf_eq hcall hframe).symm
  have hframes : (x.given.map (·.1)).map x.session.frameOf = x.given.map (·.2.frame passive) := by
    rw [List.map_map]
    refine List.map_congr_left fun p hp => ?_
    obtain ⟨call, hcall, hrequest⟩ := h.asked p hp
    exact Session.frameOf_eq hcall (by rw [hrequest]; rfl)
  refine (Session.passedOf_prefix h₀ h.run_all _).trans ?_
  rw [hentries, ← hframes]
  refine List.IsPrefix.map _ ?_
  rcases h.booked with hbooked | hbooked
  · exact hbooked ▸ List.dropLast_prefix _
  · rw [hbooked]

end Ordered

end Scan

end BleHost
