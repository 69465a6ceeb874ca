import BleHost.Proofs.Console.Stages

/-!
# The course of a scan

A scan gives its four instructions in order, each after the one before it has been acknowledged. It
listens for its time and no longer, unless it fails or the stream ends before; and it succeeds
exactly if all goes well (`Scan.takes_its_course`).
-/

namespace BleHost

deriving instance DecidableEq for ConsoleStage

namespace Scan

variable {x y : Scan} {happening : Happening} {happenings : List Happening} {s₀ : Session}
  {opening : List Action} {seconds : Nat} {passive : Bool} {settings : Settings}
  {step : ScanStep} {devices : DeviceTable} {next : Console × Session} {deadline time i : Nat}
  {stage : ConsoleStage} {result : Except String Unit}

/-! ### What is not undone -/

/-- Nothing that a scan has been through is undone. -/
theorem prefix_of_run? (hrun : x.run? happenings = some y) :
    y.began = x.began ∧ x.given <+: y.given ∧ x.actions <+: y.actions := by
  refine run?_induction
    (P := fun z => z.began = x.began ∧ x.given <+: z.given ∧ x.actions <+: z.actions) ?_ hrun
    ⟨rfl, List.prefix_refl _, List.prefix_refl _⟩
  rintro z happening w ⟨hbegan, hgiven, hactions⟩ hstep
  have hafter (next : Console × Session) : (z.after next).began = x.began ∧
      x.given <+: (z.after next).given ∧ x.actions <+: (z.after next).actions :=
    ⟨hbegan, hgiven.trans (List.prefix_append _ _), hactions.trans (List.prefix_append _ _)⟩
  rcases step?_cases hstep with ⟨next, -, rfl⟩ | ⟨-, -, next, -, -, rfl⟩ | ⟨action, t, -, -, rfl⟩
  · exact hafter next
  · exact hafter next
  · exact ⟨hbegan, hgiven, hactions.trans (List.prefix_append _ _)⟩

theorem acknowledged_of_run? (hx : x.Ordered s₀ opening passive)
    (hy : y.Ordered s₀ opening passive) (hrun : x.run? happenings = some y)
    (hacked : x.session.Acknowledged i) : y.session.Acknowledged i := by
  obtain ⟨hbegan, -, more, hmore⟩ := prefix_of_run? hrun
  have hall := hy.run
  rw [hbegan, ← hmore] at hall
  exact Session.run?_induction (P := fun s => s.Acknowledged i)
    (fun _ _ _ h hstep => h.step hstep) (Session.run?_of_append hall hx.run) hacked

/-- A console listens until a deadline, and then goes on to the last step. -/
def Attends (deadline : Nat) (x : Scan) : Prop :=
  (∃ devices, x.console.stage = .listening deadline devices) ∨
    (∃ devices, x.console.stage = .instructing .endProcedure devices) ∨
    ∃ time result, x.console.stage = .finished time result

theorem attends_of_hear? (hstage : x.console.stage = .listening deadline devices)
    (hhear : x.console.hear? x.session deadline devices = some next) :
    (x.after next).Attends deadline := by
  unfold Console.hear? at hhear
  dsimp only at hhear
  split at hhear
  · rename_i m _
    obtain rfl := Option.some.inj hhear
    refine .inl ?_
    show ∃ devices', (x.console.heard deadline devices m).stage = .listening deadline devices'
    unfold Console.heard
    split
    · exact ⟨_, rfl⟩
    · exact ⟨_, rfl⟩
  · obtain rfl := Option.some.inj hhear
    exact .inl ⟨_, hstage⟩
  · obtain rfl := Option.some.inj hhear
    exact .inr (.inr ⟨_, _, rfl⟩)
  · cases hhear

theorem Attends.resume (h : x.Attends deadline)
    (hresume : x.console.resume? x.session = some next) : (x.after next).Attends deadline := by
  unfold Console.resume? at hresume
  rcases h with ⟨devices, hstage⟩ | ⟨devices, hstage⟩ | ⟨time, result, hstage⟩
  · simp only [hstage, Console.listen?_eq] at hresume
    split at hresume
    · obtain rfl := Option.some.inj hresume
      exact .inr (.inl ⟨devices, rfl⟩)
    · exact attends_of_hear? hstage hresume
  · simp only [hstage] at hresume
    split at hresume
    · cases hresume
    · split at hresume
      · obtain rfl := Option.some.inj hresume
        exact .inr (.inr ⟨_, _, rfl⟩)
      · obtain rfl := Option.some.inj hresume
        exact .inr (.inr ⟨_, _, rfl⟩)
  · rw [hstage] at hresume
    cases hresume

theorem Attends.run (h : x.Attends deadline) (hrun : x.run? happenings = some y) :
    y.Attends deadline := by
  refine run?_induction (P := Attends deadline) ?_ hrun h
  intro x happening y h hstep
  rcases step?_cases hstep with ⟨next, hresume, rfl⟩ |
    ⟨deadline', devices, next, hstage, hhear, rfl⟩ | ⟨action, t, -, -, rfl⟩
  · exact h.resume hresume
  · obtain rfl : deadline' = deadline := by
      rcases h with ⟨devices', h⟩ | ⟨devices', h⟩ | ⟨time, result, h⟩
      · exact (ConsoleStage.listening.inj (hstage.symm.trans h)).1
      · cases hstage.symm.trans h
      · cases hstage.symm.trans h
    exact attends_of_hear? hstage hhear
  · exact h

/-! ### Consoles that cannot go on -/

/-- A console that cannot go on is done, waits to hear of its instruction, or listens to a stream
that has nothing for it, its time not being over. -/
theorem Stands.still (h : x.Stands seconds passive x.console.stage)
    (hquiet : x.step? .goOn = none) :
    (∃ time result, x.console.stage = .finished time result) ∨
      (∃ step devices, x.console.stage = .instructing step devices ∧
        x.console.result? x.session = none) ∨
      ∃ deadline devices, x.console.stage = .listening deadline devices ∧
        x.session.now < deadline ∧ (x.session.hub.receive x.console.receiver).1 = .empty := by
  have hnone : x.console.resume? x.session = none := Option.map_eq_none_iff.1 hquiet
  unfold Console.resume? at hnone
  cases hstage : x.console.stage with
  | asking query firmware =>
    rw [hstage] at h
    cases h
  | finished time result => exact .inl ⟨time, result, rfl⟩
  | instructing step devices =>
    refine .inr (.inl ⟨step, devices, rfl, ?_⟩)
    simp only [hstage] at hnone
    split at hnone
    · assumption
    · split at hnone <;> cases hnone
  | listening deadline devices =>
    refine .inr (.inr ⟨deadline, devices, rfl, ?_⟩)
    simp only [hstage, Console.listen?_eq] at hnone
    split at hnone
    · cases hnone
    · rename_i htime
      refine ⟨Nat.lt_of_not_le htime, ?_⟩
      unfold Console.hear? at hnone
      dsimp only at hnone
      split at hnone <;> first | assumption | cases hnone

/-- A console whose instruction has been acknowledged does not wait to hear of it. -/
theorem result?_ne_none_of_acknowledged (hacked : x.session.Acknowledged x.console.call) :
    x.console.result? x.session ≠ none := by
  obtain ⟨time, m, hended, -⟩ := hacked
  rw [Console.result?_eq_some.2 ⟨time, hended⟩]
  exact nofun

/-- A console that cannot go on is done, waits to hear of the instruction that it has given last, or
listens to a stream that has nothing for it, its time not being over. -/
theorem Sound.still (h : x.Sound s₀ opening seconds passive) (hquiet : x.step? .goOn = none) :
    (∃ time result, x.console.stage = .finished time result) ∨
      (∃ p devices, x.given.getLast? = some p ∧ x.console.stage = .instructing p.2 devices ∧
        ∀ time result, x.session.stage? p.1 ≠ some (.ended time result)) ∨
      ∃ deadline devices, x.console.stage = .listening deadline devices ∧
        x.session.now < deadline ∧ (x.session.hub.receive x.console.receiver).1 = .empty := by
  refine (h.stands.still hquiet).imp_right (.imp_left ?_)
  rintro ⟨step, devices, hstage, hwaits⟩
  refine ⟨_, devices, (h.instructs hstage).last, hstage, fun time result hended => ?_⟩
  rw [Console.result?_eq_some.2 ⟨time, hended⟩] at hwaits
  cases hwaits

/-- An instruction that has failed has not been acknowledged. -/
theorem HasFailed.not_acknowledged {text : String} (h : x.HasFailed step text)
    (hord : x.Ordered s₀ opening passive) (h₀ : Session.ofSettings settings = .ok s₀) :
    ¬ x.session.Acknowledged x.console.call := by
  intro hacked
  obtain ⟨result, hresult, hcomplaint⟩ := h.why
  obtain ⟨call, hcall, hrequest⟩ := hord.asked _ (List.mem_of_getLast? h.last)
  obtain ⟨time, hstage⟩ := Console.result?_eq_some.1 hresult
  rw [(Console.complaint?_eq_none_iff (hord.reachable h₀) hcall hrequest hstage).2 hacked]
    at hcomplaint
  cases hcomplaint

/-! ### Instructions -/

theorem Stands.steps_prefix (h : x.Stands seconds passive stage) :
    x.given.map (·.2) <+: ScanStep.all := by
  cases h with
  | instructing h => exact h.steps ▸ ScanStep.upTo_prefix _
  | listening h => exact h.steps ▸ ScanStep.upTo_prefix _
  | succeeded time h => exact h.steps ▸ List.prefix_refl _
  | failed time h => exact h.steps ▸ ScanStep.upTo_prefix _
  | brokenOff time h => exact h.steps ▸ ScanStep.upTo_prefix _

theorem exists_place (hstep : step ∈ x.given.map (·.2)) : ∃ i, (i, step) ∈ x.given := by
  obtain ⟨⟨i, step⟩, hp, rfl⟩ := List.mem_map.1 hstep
  exact ⟨i, hp⟩

/-- The instruction to discover devices is the last one until the one to end that is given. -/
theorem last_or_ends (hlast : x.given.getLast? = some (x.console.call, step))
    (hsteps : x.given.map (·.2) = step.upTo) (hi : (i, .discover) ∈ x.given) :
    i = x.console.call ∨ ∃ j, (j, .endProcedure) ∈ x.given := by
  have hmem : ScanStep.discover ∈ step.upTo := hsteps ▸ List.mem_map_of_mem hi
  have hgiven := List.mem_of_getLast? hlast
  have hnodup : (x.given.map (·.2)).Nodup := by
    rw [hsteps]
    cases step <;> decide
  cases step with
  | setMode => exact absurd hmem (by decide)
  | setScanParameters => exact absurd hmem (by decide)
  | discover => exact .inl (Prod.mk.inj (List.inj_on_of_nodup_map hnodup hi hgiven rfl)).1
  | endProcedure => exact .inr ⟨_, hgiven⟩

/-- A console that is done after it has been acknowledged that the module discovers devices has told
it to end that, unless the stream has ended. -/
theorem Sound.ends_procedure (h : x.Sound s₀ opening seconds passive)
    (h₀ : Session.ofSettings settings = .ok s₀) (hi : (i, .discover) ∈ x.given)
    (hacked : x.session.Acknowledged i) (hstage : x.console.stage = .finished time result) :
    (∃ j, (j, .endProcedure) ∈ x.given) ∨ .closed ∈ x.yielded := by
  have hstands := h.stands
  rw [hstage] at hstands
  cases hstands with
  | succeeded time hend =>
    refine .inl (exists_place ?_)
    rw [hend.steps]
    decide
  | failed time hend =>
    refine (last_or_ends hend.last hend.steps hi).elim ?_ .inl
    rintro rfl
    exact absurd hacked (hend.not_acknowledged h.toOrdered h₀)
  | brokenOff time hend => exact .inr hend.ended

/-- A console that cannot go on once the module discovers devices has told it to end that, unless
the stream has ended or there is time left to listen. -/
theorem Sound.ends_or_listens (h : x.Sound s₀ opening seconds passive)
    (h₀ : Session.ofSettings settings = .ok s₀) (hi : (i, .discover) ∈ x.given)
    (hacked : x.session.Acknowledged i) (hquiet : x.step? .goOn = none) :
    (∃ j, (j, .endProcedure) ∈ x.given) ∨ .closed ∈ x.yielded ∨
      ∃ deadline devices, x.console.stage = .listening deadline devices ∧
        x.session.now < deadline ∧ deadline ≤ x.session.now + 1000 * seconds := by
  rcases h.stands.still hquiet with ⟨time, result, hstage⟩ | ⟨step, devices, hstage, hwaits⟩ |
    ⟨deadline, devices, hstage, htime, -⟩
  · exact (h.ends_procedure h₀ hi hacked hstage).imp_right .inl
  · have hinstructs := h.instructs hstage
    refine (last_or_ends hinstructs.last hinstructs.steps hi).elim ?_ .inl
    rintro rfl
    exact absurd hwaits (result?_ne_none_of_acknowledged hacked)
  · exact .inr (.inr ⟨deadline, devices, hstage, htime, (h.listens hstage).deadline⟩)

/-- When the time to listen is over, a console that cannot go on has told the module to end its
procedure, unless the stream has ended. -/
theorem Sound.ends_in_time (h : x.Sound s₀ opening seconds passive)
    (h₀ : Session.ofSettings settings = .ok s₀)
    (hstage : x.console.stage = .listening deadline devices) (hrun : x.run? happenings = some y)
    (hquiet : y.step? .goOn = none) (hlate : deadline ≤ y.session.now) :
    (∃ j, (j, .endProcedure) ∈ y.given) ∨ .closed ∈ y.yielded := by
  have hy := sound_of_run? h h₀ hrun
  -- the module has acknowledged that it discovers devices, and that is not undone
  have hlistens := h.listens hstage
  have hmem : ScanStep.discover ∈ x.given.map (·.2) := by
    rw [hlistens.steps]
    decide
  obtain ⟨i, hi⟩ := exists_place hmem
  have hacked : y.session.Acknowledged i :=
    acknowledged_of_run? h.toOrdered hy.toOrdered hrun (hlistens.acknowledged _ hi)
  rcases hy.ends_or_listens h₀ ((prefix_of_run? hrun).2.1.subset hi) hacked hquiet with
    hends | hended | ⟨deadline', devices', hstage', hearly, -⟩
  · exact .inl hends
  · exact .inr hended
  · -- it would listen until the same deadline
    have hattends : y.Attends deadline := Attends.run (.inl ⟨devices, hstage⟩) hrun
    rcases hattends with ⟨_, hother⟩ | ⟨_, hother⟩ | ⟨_, _, hother⟩
    · obtain ⟨rfl, -⟩ := ConsoleStage.listening.inj (hstage'.symm.trans hother)
      omega
    · cases hstage'.symm.trans hother
    · cases hstage'.symm.trans hother

/-- After the end of the stream the module is not told anything. -/
theorem Stands.not_ended (h : x.Stands seconds passive stage) (hended : .closed ∈ x.yielded)
    (j : Nat) : (j, .endProcedure) ∉ x.given := by
  cases h with
  | instructing h => exact absurd hended h.unended
  | listening h => exact absurd hended h.unended
  | succeeded time h => exact absurd hended h.unended
  | failed time h => exact absurd hended h.unended
  | brokenOff time h =>
    intro hmem
    have hstep : ScanStep.endProcedure ∈ x.given.map (·.2) := List.mem_map_of_mem hmem
    rw [h.steps] at hstep
    exact absurd hstep (by decide)

/-! ### Success and failure -/

/-- A console that cannot go on has succeeded exactly if all its instructions have been acknowledged
and the stream has not ended. -/
theorem Sound.succeeds_iff (h : x.Sound s₀ opening seconds passive)
    (h₀ : Session.ofSettings settings = .ok s₀) (hquiet : x.step? .goOn = none) :
    (∃ time, x.console.stage = .finished time (.ok ())) ↔
      x.given.map (·.2) = ScanStep.all ∧ (∀ p ∈ x.given, x.session.Acknowledged p.1) ∧
        .closed ∉ x.yielded := by
  have hstands := h.stands
  constructor
  · rintro ⟨time, hstage⟩
    rw [hstage] at hstands
    cases hstands with
    | succeeded time hend => exact ⟨hend.steps, hend.acknowledged, hend.unended⟩
  · rintro ⟨hall, hacked, hunended⟩
    rcases hstands.still hquiet with ⟨time, result, hstage⟩ | ⟨step, devices, hstage, hwaits⟩ |
      ⟨deadline, devices, hstage, -⟩
    · rw [hstage] at hstands
      cases hstands with
      | succeeded time hend => exact ⟨time, hstage⟩
      | failed time hend =>
        exact absurd (hacked _ (List.mem_of_getLast? hend.last))
          (hend.not_acknowledged h.toOrdered h₀)
      | brokenOff time hend => exact absurd hend.ended hunended
    · have hinstructs := h.instructs hstage
      exact absurd hwaits
        (result?_ne_none_of_acknowledged (hacked _ (List.mem_of_getLast? hinstructs.last)))
    · exact absurd ((h.listens hstage).steps.symm.trans hall) (by decide)

/-- Why a scan has failed. -/
theorem Stands.failure {message : String}
    (h : x.Stands seconds passive (.finished time (.error message))) :
    (.closed ∈ x.yielded ∧ message = "handler closed during discovery") ∨
      ∃ p ended result text, x.given.getLast? = some p ∧
        x.session.stage? p.1 = some (.ended ended result) ∧
        Console.complaint? result = some text ∧ message = p.2.label ++ ": " ++ text := by
  cases h with
  | failed time h =>
    obtain ⟨result, hresult, hcomplaint⟩ := h.why
    obtain ⟨ended, hended⟩ := Console.result?_eq_some.1 hresult
    exact .inr ⟨_, ended, result, _, h.last, hended, hcomplaint, rfl⟩
  | brokenOff time h => exact .inl ⟨h.ended, rfl⟩

/-- **A scan takes its course.** Whatever the module, the link and everybody else do: the scan gives
a beginning of its four instructions, each as an exchange with the usual time limit, and of their
frames the link is given a beginning, in that order. All instructions but the last one given have
been acknowledged. A console that cannot go on is done, waits to hear of that last one, or listens,
its time not being over, to a stream that has nothing for it. Once the module has acknowledged that
it discovers devices, a console that cannot go on either listens, and has at most so many seconds
left, or has told the module to end that, or the stream has ended; when the time is over, only the
last two are left. If the stream has ended, the module is not told. A console that cannot go on has
succeeded exactly if all four instructions have been acknowledged and the stream has not ended. It
has then printed how many have sent the reports that the stream has yielded, and a row for each of
them, made of the reports in their order and sorted by the signals, and before that each device as
its first report came in. If it has failed, it says which instruction has, and why, or that the
stream has ended. -/
theorem takes_its_course {s₁ : Session} (h₀ : Session.ofSettings settings = .ok s₀)
    (hopening : s₀.run? opening = some s₁) (hkept : s₁.released = false)
    (hrun : (start seconds passive s₁).run? happenings = some x) :
    (s₁.run? x.actions = some x.session ∧ x.began = s₁ ∧
      x.console.receiver = s₁.hub.receivers.length ∧
      ∀ p ∈ x.given, ∃ call : Call, x.session.calls[p.1]? = some call ∧
        call.request = .exchange (p.2.command passive) (some settings.commandTimeout)) ∧
    (x.given.map (·.2) <+: [.setMode, .setScanParameters, .discover, .endProcedure] ∧
      s₀.passedOf (x.given.map (·.1)) (opening ++ x.actions) <+:
        [[0, 2, 6, 1, 2, 1], [0, 5, 6, 7, 0x40, 0, 0x30, 0, if passive then 0 else 1],
          [0, 1, 6, 2, 1], [0, 0, 6, 4]]) ∧
    (∀ p ∈ x.given.dropLast, x.session.Acknowledged p.1) ∧
    (x.step? .goOn = none →
      (∃ time result, x.console.stage = .finished time result) ∨
      (∃ p devices, x.given.getLast? = some p ∧ x.console.stage = .instructing p.2 devices ∧
        ∀ time result, x.session.stage? p.1 ≠ some (.ended time result)) ∨
      ∃ deadline devices, x.console.stage = .listening deadline devices ∧
        x.session.now < deadline ∧ (x.session.hub.receive x.console.receiver).1 = .empty) ∧
    (∀ i, (i, .discover) ∈ x.given → x.session.Acknowledged i → x.step? .goOn = none →
      (∃ j, (j, .endProcedure) ∈ x.given) ∨ .closed ∈ x.yielded ∨
        ∃ deadline devices, x.console.stage = .listening deadline devices ∧
          x.session.now < deadline ∧ deadline ≤ x.session.now + 1000 * seconds) ∧
    (∀ deadline devices later y, x.console.stage = .listening deadline devices →
      x.run? later = some y → y.step? .goOn = none → deadline ≤ y.session.now →
      (∃ j, (j, .endProcedure) ∈ y.given) ∨ .closed ∈ y.yielded) ∧
    (.closed ∈ x.yielded → ∀ j, (j, .endProcedure) ∉ x.given) ∧
    (x.step? .goOn = none → ((∃ time, x.console.stage = .finished time (.ok ())) ↔
      x.given.map (·.2) = [.setMode, .setScanParameters, .discover, .endProcedure] ∧
        (∀ p ∈ x.given, x.session.Acknowledged p.1) ∧ .closed ∉ x.yielded)) ∧
    (∀ time, x.console.stage = .finished time (.ok ()) →
      x.console.output = Console.heading seconds passive ++ Console.announcements x.reports ++
        ("\n" ++ toString (x.reports.map (·.sender)).toFinset.card ++ " device(s) found\n" ++
          "  Address            Type     RSSI   Seen  Name\n" ++
          String.join ((DeviceTable.ofReports x.reports).bySignal.map (·.row)))) ∧
    ∀ time message, x.console.stage = .finished time (.error message) →
      (.closed ∈ x.yielded ∧ message = "handler closed during discovery") ∨
        ∃ p ended result text, x.given.getLast? = some p ∧
          x.session.stage? p.1 = some (.ended ended result) ∧
          Console.complaint? result = some text ∧ message = p.2.label ++ ": " ++ text := by
  have hx := sound_of_run? (Sound.start h₀ hopening hkept seconds passive) h₀ hrun
  have hstands := hx.stands
  have hbegan : x.began = s₁ := (prefix_of_run? hrun).1
  have hsettings : x.session.settings = settings := by
    rw [Session.settings_eq_of_run? hx.run_all, Session.eq_of_ofSettings h₀]
  refine ⟨⟨hbegan ▸ hx.run, hbegan, hbegan ▸ hx.receiver, hsettings ▸ hx.asked⟩,
    ⟨hstands.steps_prefix, ?_⟩, hx.acknowledged, hx.still, fun i hi => hx.ends_or_listens h₀ hi,
    fun deadline devices later y hstage hlater => hx.ends_in_time h₀ hstage hlater,
    hstands.not_ended, hx.succeeds_iff h₀, ?_, ?_⟩
  · have hframes := hstands.steps_prefix.map (·.frame passive)
    rw [List.map_map, ScanStep.frames_eq] at hframes
    exact (hx.passedOf_prefix h₀).trans hframes
  · intro time hstage
    rw [hstage] at hstands
    cases hstands with
    | succeeded time h => exact h.printed
  · intro time message hstage
    rw [hstage] at hstands
    exact hstands.failure

/-- What the module answers to the instruction of a call, by its number, and the console then takes
note of. -/
def acknowledge (call : Nat) (command : UInt8) : List Happening :=
  [.other (.write (.ok ())), .other (.read (.received [0, 2, 6, command, 0, 0])),
    .other (.turn call), .goOn]

/-- Two reports come in at once, of which the stream keeps one; then the time to listen is over. -/
def oneOfTwoReports : List Happening :=
  acknowledge 0 1 ++ acknowledge 1 7 ++ acknowledge 2 2 ++
    [.other (.read (.received
      [0x80, 11, 6, 0, 196, 0, 1, 2, 3, 4, 5, 6, 0, 255, 0,
        0x80, 11, 6, 0, 200, 0, 7, 8, 9, 10, 11, 12, 0, 255, 0])),
      .goOn, .goOn, .other (.pass 1000), .goOn] ++
    acknowledge 3 4

theorem takes_its_course_oneOfTwo : ∃ s₀ x, Session.ofSettings { eventCapacity := 1 } = .ok s₀ ∧
    (start 1 true s₀).run? oneOfTwoReports = some x ∧
    x.given = [(0, .setMode), (1, .setScanParameters), (2, .discover), (3, .endProcedure)] ∧
    s₀.passedOf [0, 1, 2, 3] x.actions <+: [[0, 2, 6, 1, 2, 1],
      [0, 5, 6, 7, 0x40, 0, 0x30, 0, 0], [0, 1, 6, 2, 1], [0, 0, 6, 4]] ∧
    (∀ p ∈ x.given, x.session.Acknowledged p.1) ∧ x.reports.length = 1 ∧
    x.console.output = Console.heading 1 true ++ Console.announcements x.reports ++
      Console.report x.reports := by
  have h₀ : Session.ofSettings { eventCapacity := 1 } = .ok _ := rfl
  have hcourse : ∀ {s₀ : Session} {x : Scan}, Session.ofSettings { eventCapacity := 1 } = .ok s₀ →
      (start 1 true s₀).run? oneOfTwoReports = some x → s₀.released = false →
      x.given = [(0, .setMode), (1, .setScanParameters), (2, .discover), (3, .endProcedure)] →
      x.console.stage = .finished 1000 (.ok ()) →
      s₀.passedOf [0, 1, 2, 3] x.actions <+: [[0, 2, 6, 1, 2, 1],
          [0, 5, 6, 7, 0x40, 0, 0x30, 0, 0], [0, 1, 6, 2, 1], [0, 0, 6, 4]] ∧
        (∀ p ∈ x.given, x.session.Acknowledged p.1) ∧
        x.console.output = Console.heading 1 true ++ Console.announcements x.reports ++
          Console.report x.reports := by
    intro s₀ x h₀ hrun hkept hgiven hstage
    obtain ⟨-, ⟨-, hframes⟩, -, -, -, -, -, hsucceeds, hprinted, -⟩ :=
      takes_its_course h₀ (Session.run?_nil s₀) hkept hrun
    rw [hgiven] at hframes
    have hquiet : x.step? .goOn = none := by
      rw [step?, Console.resume?, hstage]
      rfl
    exact ⟨hframes, ((hsucceeds hquiet).1 ⟨1000, hstage⟩).2.1, hprinted 1000 hstage⟩
  obtain ⟨hframes, hacked, hprinted⟩ := hcourse h₀ (Option.some_get (by decide +kernel)).symm rfl
    (by decide +kernel) (by decide +kernel)
  exact ⟨_, _, h₀, (Option.some_get (by decide +kernel)).symm, by decide +kernel, hframes, hacked,
    by decide +kernel, hprinted⟩

end Scan

end BleHost
