import BleHost.Proofs.Console.Printout
import BleHost.Proofs.Console.Scan

/-!
# What a scan has come to

What a scan has come to can be told from the stage of its console (`Scan.Stands`): which
instructions have been given and acknowledged, what the stream has yielded, and what has been
printed. The devices in the table are at all times those of the reports that the stream has yielded.
Whatever happens keeps that up (`Scan.sound_of_run?`).
-/

namespace BleHost

/-! ### Answers to instructions -/

/-- No kind of message has more than one result among its fields. -/
theorem Message.mem_values_iff_result? {m : Message} {code : ResultCode} :
    ("result", ⟨.result, code⟩) ∈ m.values ↔ m.result? = some code := by
  obtain ⟨kind, fields⟩ := m
  cases kind <;> simp [values, result?, Record.values, eq_comm]

namespace Console

variable {c : Console} {s : Session} {result : Except Error Outcome} {i : Nat} {call : Call}

theorem result?_eq_some : c.result? s = some result ↔
    ∃ time, s.stage? c.call = some (.ended time result) := by
  unfold result?
  constructor
  · intro h
    split at h
    · rename_i time result' hstage
      exact ⟨time, Option.some.inj h ▸ hstage⟩
    · cases h
  · rintro ⟨time, hstage⟩
    rw [hstage]

/-- Nothing is said against a message just if it tells of success. -/
theorem complaint?_message_eq_none_iff {m : Message} :
    complaint? (.ok (.message m)) = none ↔ ("result", ⟨.result, .known .success⟩) ∈ m.values := by
  rw [Message.mem_values_iff_result?]
  unfold complaint?
  dsimp only
  cases m.result? with
  | none => simp
  | some code => simp [ResultCode.isSuccess, ResultCode.success]

/-- Nothing is said against an instruction that has been acknowledged, and against no other. -/
theorem complaint?_eq_none_iff (hs : s.Reachable) (hcall : s.calls[i]? = some call)
    {command : Command} {limit : Option Nat} (hrequest : call.request = .exchange command limit)
    {time : Nat} (hstage : s.stage? i = some (.ended time result)) :
    complaint? result = none ↔ s.Acknowledged i := by
  have hresult : s.Acknowledged i ↔ ∃ m, result = .ok (.message m) ∧
      ("result", ⟨.result, .known .success⟩) ∈ m.values := by
    unfold Session.Acknowledged
    simp [hstage]
  rw [hresult]
  cases result with
  | error e => simp [complaint?]
  | ok outcome =>
    obtain ⟨m, rfl⟩ := Session.exists_message_of_exchange hs hcall hrequest
      (Option.some.inj ((Session.stage?_eq hcall).symm.trans hstage))
    rw [complaint?_message_eq_none_iff]
    simp

end Console

namespace Scan

variable {x y : Scan} {happening : Happening} {happenings : List Happening} {s₀ t : Session}
  {opening : List Action} {seconds : Nat} {passive : Bool} {action : Action} {settings : Settings}
  {step : ScanStep} {devices : DeviceTable} {next : Console × Session} {deadline : Nat}
  {stage : ConsoleStage} {result : Except Error Outcome} {text : String}

/-! ### Stages -/

/-- All instructions given so far have been acknowledged. -/
def AllAcknowledged (x : Scan) : Prop := ∀ p ∈ x.given, x.session.Acknowledged p.1

/-- What has been printed since the console began to listen. -/
def soFar (seconds : Nat) (passive : Bool) (x : Scan) : String :=
  Console.heading seconds passive ++ Console.announcements x.reports

/-- The console waits to hear of an instruction. Until it listens it prints nothing. -/
structure Instructs (seconds : Nat) (passive : Bool) (x : Scan) (step : ScanStep)
    (devices : DeviceTable) : Prop where
  last : x.given.getLast? = some (x.console.call, step)
  steps : x.given.map (·.2) = step.upTo
  unended : .closed ∉ x.yielded
  devices : devices = .ofReports x.reports
  printed : x.console.output = if step = .endProcedure then x.soFar seconds passive else ""
  silent : step ≠ .endProcedure → x.reports = []

/-- The console listens. -/
structure Listens (seconds : Nat) (passive : Bool) (x : Scan) (deadline : Nat)
    (devices : DeviceTable) : Prop where
  steps : x.given.map (·.2) = ScanStep.discover.upTo
  acknowledged : x.AllAcknowledged
  unended : .closed ∉ x.yielded
  devices : devices = .ofReports x.reports
  printed : x.console.output = x.soFar seconds passive
  deadline : deadline ≤ x.session.now + 1000 * seconds

/-- The scan has succeeded. -/
structure HasSucceeded (seconds : Nat) (passive : Bool) (x : Scan) : Prop where
  steps : x.given.map (·.2) = ScanStep.all
  acknowledged : x.AllAcknowledged
  unended : .closed ∉ x.yielded
  printed : x.console.output = x.soFar seconds passive ++ Console.report x.reports

/-- An instruction has failed. -/
structure HasFailed (x : Scan) (step : ScanStep) (text : String) : Prop where
  last : x.given.getLast? = some (x.console.call, step)
  steps : x.given.map (·.2) = step.upTo
  unended : .closed ∉ x.yielded
  why : ∃ result, x.console.result? x.session = some result ∧
    Console.complaint? result = some text

/-- The stream has ended while the console listened. -/
structure HasBrokenOff (x : Scan) : Prop where
  steps : x.given.map (·.2) = ScanStep.discover.upTo
  ended : .closed ∈ x.yielded

/-- What a scan has come to, by the stage of its console. -/
inductive Stands (seconds : Nat) (passive : Bool) (x : Scan) : ConsoleStage → Prop
  | instructing {step : ScanStep} {devices : DeviceTable}
    (h : x.Instructs seconds passive step devices) :
    Stands seconds passive x (.instructing step devices)
  | listening {deadline : Nat} {devices : DeviceTable}
    (h : x.Listens seconds passive deadline devices) :
    Stands seconds passive x (.listening deadline devices)
  | succeeded (time : Nat) (h : x.HasSucceeded seconds passive) :
    Stands seconds passive x (.finished time (.ok ()))
  | failed (time : Nat) {step : ScanStep} {text : String} (h : x.HasFailed step text) :
    Stands seconds passive x (.finished time (.error (step.label ++ ": " ++ text)))
  | brokenOff (time : Nat) (h : x.HasBrokenOff) :
    Stands seconds passive x (.finished time (.error "handler closed during discovery"))

/-- A scan, with all that its session went through before, is in order and has come to what the
stage of its console tells. -/
structure Sound (s₀ : Session) (opening : List Action) (seconds : Nat) (passive : Bool)
    (x : Scan) : Prop extends Ordered s₀ opening passive x where
  task : x.console.task = .discover seconds passive
  receiver : x.console.receiver = x.began.hub.receivers.length
  stands : Stands seconds passive x x.console.stage

theorem Sound.instructs (h : x.Sound s₀ opening seconds passive)
    (hstage : x.console.stage = .instructing step devices) :
    x.Instructs seconds passive step devices := by
  have hstands := h.stands
  rw [hstage] at hstands
  cases hstands with
  | instructing h => exact h

theorem Sound.listens (h : x.Sound s₀ opening seconds passive)
    (hstage : x.console.stage = .listening deadline devices) :
    x.Listens seconds passive deadline devices := by
  have hstands := h.stands
  rw [hstage] at hstands
  cases hstands with
  | listening h => exact h

/-! ### What others do -/

theorem yielded_concat (hrun : x.began.run? x.actions = some x.session)
    (hstep : x.session.step? action = some t) (console : Console)
    (hreceiver : console.receiver = x.console.receiver) :
    ({ x with console, session := t, actions := x.actions ++ [action] } : Scan).yielded =
      x.yielded ++ x.session.yields x.console.receiver action := by
  show x.began.yielded console.receiver (x.actions ++ [action]) = _
  rw [hreceiver]
  exact Session.yielded_concat hrun (Option.isSome_of_mem hstep)

/-- What has been told of a scan remains true while nothing is given or yielded. -/
theorem Stands.same (h : x.Stands seconds passive stage) (hgiven : y.given = x.given)
    (hconsole : y.console = x.console) (hyielded : y.yielded = x.yielded)
    (hnow : x.session.now ≤ y.session.now)
    (hkept : ∀ i time result, x.session.stage? i = some (.ended time result) →
      y.session.stage? i = some (.ended time result)) : y.Stands seconds passive stage := by
  have hreports : y.reports = x.reports := by rw [reports, hyielded, reports]
  have hsoFar : y.soFar seconds passive = x.soFar seconds passive := by rw [soFar, hreports, soFar]
  have hacked : x.AllAcknowledged → y.AllAcknowledged := by
    intro h p hp
    obtain ⟨time, m, hstage, hsuccess⟩ := h p (hgiven ▸ hp)
    exact ⟨time, m, hkept _ _ _ hstage, hsuccess⟩
  cases h with
  | instructing h =>
    exact .instructing
      { last := by rw [hgiven, hconsole, h.last]
        steps := by rw [hgiven, h.steps]
        unended := by rw [hyielded]; exact h.unended
        devices := by rw [hreports]; exact h.devices
        printed := by rw [hconsole, hsoFar]; exact h.printed
        silent := by rw [hreports]; exact h.silent }
  | listening h =>
    exact .listening
      { steps := by rw [hgiven, h.steps]
        acknowledged := hacked h.acknowledged
        unended := by rw [hyielded]; exact h.unended
        devices := by rw [hreports]; exact h.devices
        printed := by rw [hconsole, hsoFar]; exact h.printed
        deadline := Nat.le_trans h.deadline (Nat.add_le_add_right hnow _) }
  | succeeded time h =>
    exact .succeeded time
      { steps := by rw [hgiven, h.steps]
        acknowledged := hacked h.acknowledged
        unended := by rw [hyielded]; exact h.unended
        printed := by rw [hconsole, hsoFar, hreports]; exact h.printed }
  | failed time h =>
    obtain ⟨result, hresult, hcomplaint⟩ := h.why
    obtain ⟨ended, hended⟩ := Console.result?_eq_some.1 hresult
    exact .failed time
      { last := by rw [hgiven, hconsole, h.last]
        steps := by rw [hgiven, h.steps]
        unended := by rw [hyielded]; exact h.unended
        why := ⟨result, Console.result?_eq_some.2 ⟨ended, hkept _ _ _ (hconsole ▸ hended)⟩,
          hcomplaint⟩ }
  | brokenOff time h =>
    exact .brokenOff time
      { steps := by rw [hgiven, h.steps]
        ended := by rw [hyielded]; exact h.ended }

theorem Sound.other (h : x.Sound s₀ opening seconds passive)
    (h₀ : Session.ofSettings settings = .ok s₀) (hpermits : x.permits action = true)
    (hstep : x.session.step? action = some t) :
    Sound s₀ opening seconds passive
      { x with session := t, actions := x.actions ++ [action] } where
  toOrdered := by
    refine h.act h₀ hstep ?_ x.console
    rintro rfl
    cases hpermits
  task := h.task
  receiver := h.receiver
  stands := by
    have hnothing : x.session.yields x.console.receiver action = [] := by
      cases action with
      | use use =>
        cases use with
        | receive index =>
          have hne : index ≠ x.console.receiver := by simpa [permits] using hpermits
          exact if_neg hne
        | _ => rfl
      | _ => rfl
    refine h.stands.same rfl rfl ?_ (Session.Lasting.of_step? hstep).now
      fun i time result => Session.stage?_of_ended hstep
    rw [← List.append_nil x.yielded, ← hnothing]
    exact yielded_concat h.run hstep x.console rfl

/-! ### What the console does -/

/-- The order of the instructions does not hang on the console. -/
theorem Ordered.withConsole (h : x.Ordered s₀ opening passive) (console : Console) :
    Ordered s₀ opening passive { x with console } :=
  { h with }

/-- All instructions have been acknowledged if nothing is said against the last. -/
theorem Sound.allAcknowledged (h : x.Sound s₀ opening seconds passive)
    (h₀ : Session.ofSettings settings = .ok s₀)
    (hlast : x.given.getLast? = some (x.console.call, step))
    (hresult : x.console.result? x.session = some result)
    (hcomplaint : Console.complaint? result = none) : x.AllAcknowledged := by
  intro p hp
  rw [← List.dropLast_append_getLast? _ hlast] at hp
  rcases List.mem_append.1 hp with hp | hp
  · exact h.acknowledged p hp
  · obtain rfl := List.mem_singleton.1 hp
    obtain ⟨call, hcall, hrequest⟩ := h.asked _ (List.mem_of_getLast? hlast)
    obtain ⟨time, hstage⟩ := Console.result?_eq_some.1 hresult
    exact (Console.complaint?_eq_none_iff (h.reachable h₀) hcall hrequest hstage).1 hcomplaint

/-- The console gives its next instruction. -/
theorem Ordered.instruct (h : x.Ordered s₀ opening passive)
    (h₀ : Session.ofSettings settings = .ok s₀)
    (htask : x.console.task = .discover seconds passive)
    (hreceiver : x.console.receiver = x.began.hub.receivers.length) (hacked : x.AllAcknowledged)
    (hsteps : x.given.map (·.2) ++ [step] = step.upTo) (hunended : .closed ∉ x.yielded)
    (hdevices : devices = .ofReports x.reports)
    (hprinted : x.console.output = if step = .endProcedure then x.soFar seconds passive else "")
    (hsilent : step ≠ .endProcedure → x.reports = []) :
    Sound s₀ opening seconds passive (x.after (x.console.instruct x.session step devices)) := by
  have hpassive : x.console.task.isPassive = passive := by
    rw [htask]
    rfl
  have hstep : x.session.step?
      (.call (step.request passive x.session.settings.commandTimeout)) =
        some (x.session.call (step.request passive x.session.settings.commandTimeout)) := by
    rw [Session.step?, if_neg (by simp [h.kept])]
  have hafter : x.after (x.console.instruct x.session step devices) =
      { x with
        console :=
          { x.console with call := x.session.calls.length, stage := .instructing step devices }
        session := x.session.call (step.request passive x.session.settings.commandTimeout)
        given := x.given ++ [(x.session.calls.length, step)]
        actions :=
          x.actions ++ [.call (step.request passive x.session.settings.commandTimeout)] } := by
    rw [← hpassive, Console.instruct_eq]
    rfl
  have hyielded : (x.after (x.console.instruct x.session step devices)).yielded = x.yielded := by
    rw [hafter, ← List.append_nil x.yielded]
    exact yielded_concat h.run hstep
      { x.console with call := x.session.calls.length, stage := .instructing step devices } rfl
  have hreports : (x.after (x.console.instruct x.session step devices)).reports = x.reports := by
    rw [reports, hyielded, reports]
  have hord := h.give h₀ hacked hstep
    { x.console with call := x.session.calls.length, stage := .instructing step devices }
  rw [← hafter] at hord
  exact
    { hord with
      task := htask
      receiver := hreceiver
      stands := .instructing
        { last := List.getLast?_concat
          steps := by rw [← hsteps]; exact List.map_append
          unended := by rw [hyielded]; exact hunended
          devices := by rw [hreports]; exact hdevices
          printed := by rw [soFar, hreports]; exact hprinted
          silent := by rw [hreports]; exact hsilent } }

/-- Something from its stream comes to a console that listens. -/
theorem Sound.take (h : x.Sound s₀ opening seconds passive)
    (h₀ : Session.ofSettings settings = .ok s₀) {received : Received} {hub : EventHub}
    (hreceived : x.session.hub.receive x.console.receiver = (received, hub)) {console : Console}
    (hy : y = { x with
      console
      session := { x.session with hub }
      actions := x.actions ++ [.use (.receive x.console.receiver)] })
    (hreceiver : console.receiver = x.console.receiver) (htask : console.task = x.console.task)
    (hstands : y.yielded = x.yielded ++ [received] →
      y.reports = x.reports ++ received.report?.toList → (x.AllAcknowledged → y.AllAcknowledged) →
      y.Stands seconds passive console.stage) : y.Sound s₀ opening seconds passive := by
  have hstep : x.session.step? (.use (.receive x.console.receiver)) =
      some { x.session with hub } := by
    rw [show hub = (x.session.hub.receive x.console.receiver).2 by rw [hreceived]]
    rfl
  have hyielded : y.yielded = x.yielded ++ [received] := by
    rw [hy, yielded_concat h.run hstep console hreceiver, Session.yields, if_pos rfl, hreceived]
  have hreports : y.reports = x.reports ++ received.report?.toList := by
    rw [reports, hyielded, List.filterMap_append, ← reports]
    cases hreport : received.report? <;> simp [hreport]
  subst hy
  exact
    { h.act h₀ hstep nofun console with
      task := htask.trans h.task
      receiver := hreceiver.trans h.receiver
      stands := hstands hyielded hreports fun hacked p hp => (hacked p hp).step hstep }

/-- The console takes what its stream has. -/
theorem Sound.hear (h : x.Sound s₀ opening seconds passive)
    (h₀ : Session.ofSettings settings = .ok s₀)
    (hstage : x.console.stage = .listening deadline devices)
    (hhear : x.console.hear? x.session deadline devices = some next) :
    Sound s₀ opening seconds passive (x.after next) := by
  have hlistens := h.listens hstage
  rcases hreceived : x.session.hub.receive x.console.receiver with ⟨received, hub⟩
  unfold Console.hear? at hhear
  rw [hreceived] at hhear
  cases received with
  | message m =>
    obtain rfl := Option.some.inj hhear
    rw [hlistens.devices, Console.heard_eq deadline _ m hlistens.printed,
      after_of_listening hstage rfl]
    refine h.take h₀ hreceived rfl rfl rfl fun hyielded hreports hacked => .listening ?_
    rw [Received.report?_message] at hreports
    exact
      { steps := hlistens.steps
        acknowledged := hacked hlistens.acknowledged
        unended := by rw [hyielded]; simpa using hlistens.unended
        devices := by rw [hreports]
        printed := by rw [soFar, hreports]
        deadline := hlistens.deadline }
  | lagged missed =>
    obtain rfl := Option.some.inj hhear
    rw [after_of_listening hstage (by rw [Console.instruction?, hstage])]
    refine h.take h₀ hreceived rfl rfl rfl fun hyielded hreports hacked => ?_
    rw [show Received.report? (.lagged missed) = none from rfl, Option.toList_none,
      List.append_nil] at hreports
    rw [hstage]
    exact .listening
      { steps := hlistens.steps
        acknowledged := hacked hlistens.acknowledged
        unended := by rw [hyielded]; simpa using hlistens.unended
        devices := by rw [hreports]; exact hlistens.devices
        printed := by rw [soFar, hreports]; exact hlistens.printed
        deadline := hlistens.deadline }
  | closed =>
    obtain rfl := Option.some.inj hhear
    rw [Console.finish, after_of_listening hstage rfl]
    refine h.take h₀ hreceived rfl rfl rfl fun hyielded hreports hacked => .brokenOff _ ?_
    exact
      { steps := hlistens.steps
        ended := by rw [hyielded]; simp }
  | empty => cases hhear

/-- The console goes on once its instruction has been acknowledged. -/
theorem Sound.succeed (h : x.Sound s₀ opening seconds passive)
    (h₀ : Session.ofSettings settings = .ok s₀)
    (hstage : x.console.stage = .instructing step devices) (hacked : x.AllAcknowledged) :
    Sound s₀ opening seconds passive
      (x.after (x.console.succeeded x.session devices step)) := by
  have hinstructs := h.instructs hstage
  cases step with
  | setMode =>
    exact h.instruct h₀ h.task h.receiver hacked (by rw [hinstructs.steps]; rfl)
      hinstructs.unended hinstructs.devices hinstructs.printed fun _ => hinstructs.silent nofun
  | setScanParameters =>
    exact h.instruct h₀ h.task h.receiver hacked (by rw [hinstructs.steps]; rfl)
      hinstructs.unended hinstructs.devices hinstructs.printed fun _ => hinstructs.silent nofun
  | discover =>
    have hprinted : x.console.output ++ Console.scanBegun seconds passive =
        x.soFar seconds passive := by
      rw [Console.scanBegun_eq, hinstructs.printed, if_neg nofun, soFar, hinstructs.silent nofun,
        String.empty_append]
      exact String.append_empty.symm
    rw [Console.succeeded, h.task, after_of_instructing hstage rfl]
    exact
      { h.withConsole _ with
        task := h.task
        receiver := h.receiver
        stands := .listening
          { steps := hinstructs.steps
            acknowledged := hacked
            unended := hinstructs.unended
            devices := hinstructs.devices
            printed := hprinted
            deadline := Nat.le_refl _ } }
  | endProcedure =>
    have hprinted : x.console.output ++ Console.deviceTable devices =
        x.soFar seconds passive ++ Console.report x.reports := by
      rw [hinstructs.printed, if_pos rfl, hinstructs.devices, Console.deviceTable_eq]
    rw [Console.succeeded, Console.finish, after_of_instructing hstage rfl]
    exact
      { h.withConsole _ with
        task := h.task
        receiver := h.receiver
        stands := .succeeded _
          { steps := hinstructs.steps
            acknowledged := hacked
            unended := hinstructs.unended
            printed := hprinted } }

/-- The console has done with the scan since its instruction has failed. -/
theorem Sound.fail (h : x.Sound s₀ opening seconds passive)
    (hstage : x.console.stage = .instructing step devices)
    (hresult : x.console.result? x.session = some result)
    (hcomplaint : Console.complaint? result = some text) :
    Sound s₀ opening seconds passive
      (x.after (x.console.finish x.session (.error (step.label ++ ": " ++ text)))) := by
  have hinstructs := h.instructs hstage
  rw [Console.finish, after_of_instructing hstage rfl]
  exact
    { h.withConsole _ with
      task := h.task
      receiver := h.receiver
      stands := .failed _
        { last := hinstructs.last
          steps := hinstructs.steps
          unended := hinstructs.unended
          why := ⟨result, hresult, hcomplaint⟩ } }

/-- The console goes on. -/
theorem Sound.resume (h : x.Sound s₀ opening seconds passive)
    (h₀ : Session.ofSettings settings = .ok s₀)
    (hresume : x.console.resume? x.session = some next) :
    Sound s₀ opening seconds passive (x.after next) := by
  unfold Console.resume? at hresume
  cases hstage : x.console.stage with
  | asking query firmware =>
    have hstands := h.stands
    rw [hstage] at hstands
    cases hstands
  | finished time result =>
    rw [hstage] at hresume
    cases hresume
  | listening deadline devices =>
    have hlistens := h.listens hstage
    simp only [hstage, Console.listen?_eq] at hresume
    split at hresume
    · obtain rfl := Option.some.inj hresume
      exact h.instruct h₀ h.task h.receiver hlistens.acknowledged (by rw [hlistens.steps]; rfl)
        hlistens.unended hlistens.devices hlistens.printed (absurd rfl)
    · exact h.hear h₀ hstage hresume
  | instructing step devices =>
    simp only [hstage] at hresume
    split at hresume
    · cases hresume
    · rename_i result hresult
      split at hresume
      · rename_i text hcomplaint
        obtain rfl := Option.some.inj hresume
        exact h.fail hstage hresult hcomplaint
      · rename_i hcomplaint
        obtain rfl := Option.some.inj hresume
        exact h.succeed h₀ hstage
          (h.allAcknowledged h₀ (h.instructs hstage).last hresult hcomplaint)

/-! ### The whole scan -/

/-- A scan that has just begun. -/
theorem Sound.start (h₀ : Session.ofSettings settings = .ok s₀) {s : Session}
    (hopening : s₀.run? opening = some s) (hkept : s.released = false) (seconds : Nat)
    (passive : Bool) : Sound s₀ opening seconds passive (start seconds passive s) := by
  -- the console has its receiver, and gives its first instruction
  have hfirst : Ordered s₀ opening passive
      { began := s
        console :=
          { task := .discover seconds passive, began := s.now, receiver := s.hub.receivers.length
            stage := .finished s.now (.ok ()) }
        session := { s with hub := s.hub.receiver }
        given := []
        actions := [.use .addReceiver] } :=
    { opened := hopening
      run := rfl
      kept := hkept
      asked := fun p hp => absurd hp List.not_mem_nil
      nodup := .nil
      acknowledged := fun p hp => absurd hp List.not_mem_nil
      booked := .inr (by simp [Session.entriesOf]) }
  exact hfirst.instruct h₀ rfl rfl (fun p hp => absurd hp List.not_mem_nil) rfl List.not_mem_nil rfl
    rfl fun _ => rfl

theorem sound_of_step? (h : x.Sound s₀ opening seconds passive)
    (h₀ : Session.ofSettings settings = .ok s₀) (hstep : x.step? happening = some y) :
    y.Sound s₀ opening seconds passive := by
  rcases step?_cases hstep with ⟨next, hresume, rfl⟩ |
    ⟨deadline, devices, next, hstage, hhear, rfl⟩ | ⟨action, t, hpermits, ht, rfl⟩
  · exact h.resume h₀ hresume
  · exact h.hear h₀ hstage hhear
  · exact h.other h₀ hpermits ht

/-- Whatever happens, a scan remains in order. -/
theorem sound_of_run? (h : x.Sound s₀ opening seconds passive)
    (h₀ : Session.ofSettings settings = .ok s₀) (hrun : x.run? happenings = some y) :
    y.Sound s₀ opening seconds passive :=
  run?_induction (fun _ _ _ hx hstep => sound_of_step? hx h₀ hstep) hrun h

end Scan

end BleHost
