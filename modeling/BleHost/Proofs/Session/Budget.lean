import BleHost.Proofs.Session.Rounds
import Mathlib.Algebra.Group.Nat.Defs
import Mathlib.Data.List.Induction

/-!
# Failures in a row

How many failures in a row the link has had is a matter of what it has answered so far
(`failuresInARow`): whatever it has done right starts the count anew, and to have nothing to read in
time is neither right nor wrong. A pump that nobody stops is at work exactly as long as they are
within what it has been allowed and the stream has not ended; the answer that is one too many is
known in advance (`lastCause?`), is the last one, and names the cause (`gives_up_over_budget`).
-/

namespace BleHost

namespace Action

/-- What the pump says of the link when it has failed. Nothing to read in time is no failure. -/
def complaint? : Action → Option String
  | write (.error e) => some s!"write failed: {e.message}"
  | read (.failed e) => if e = .timeout then none else some s!"read failed: {e.message}"
  | _ => none

/-- Whether the link has failed. -/
def fails (action : Action) : Bool := action.complaint?.isSome

/-- Whether the link has done what it was asked for. -/
def works : Action → Bool
  | write (.ok _) | read (.received (_ :: _)) => true
  | _ => false

/-- Whether the stream has ended. -/
def endsStream : Action → Bool
  | read (.received []) => true
  | _ => false

end Action

/-- How many failures the link has had since it last did what it was asked for. -/
def failuresInARow (actions : List Action) : Nat :=
  (actions.reverse.takeWhile fun action => !action.works).countP Action.fails

/-- The pump has not had more failures in a row than it has been allowed, and no end of the
stream. -/
def InBudget (allowed : Nat) (actions : List Action) : Prop :=
  failuresInARow actions ≤ allowed ∧ ∀ action ∈ actions, action.endsStream = false

/-- The cause for which the pump gives up after one more action, if it does. -/
def lastCause? (allowed : Nat) (before : List Action) (action : Action) : Option String :=
  if action.endsStream then some "end of stream"
  else if failuresInARow (before ++ [action]) = allowed + 1 then action.complaint?
  else none

variable {allowed : Nat} {before : List Action} {action : Action} {cause : String}

/-! ### One more answer -/

theorem failuresInARow_snoc (before : List Action) (action : Action) :
    failuresInARow (before ++ [action]) =
      if action.works then 0 else failuresInARow before + if action.fails then 1 else 0 := by
  unfold failuresInARow
  rw [List.reverse_concat, List.takeWhile_cons]
  cases action.works with
  | true => rfl
  | false => exact List.countP_cons

theorem Action.not_works_of_fails (h : action.fails = true) : action.works = false := by
  cases action with
  | write outcome =>
    cases outcome with
    | ok u => cases h
    | error e => rfl
  | read outcome =>
    cases outcome with
    | idle => rfl
    | received bytes => cases h
    | failed e => rfl
  | _ => rfl

theorem inBudget_snoc (h : InBudget allowed before) :
    InBudget allowed (before ++ [action]) ↔ lastCause? allowed before action = none := by
  have hsnoc := failuresInARow_snoc before action
  have hmem : (∀ a ∈ before ++ [action], a.endsStream = false) ↔ action.endsStream = false := by
    simp only [List.forall_mem_append, List.forall_mem_singleton]
    exact and_iff_right h.2
  unfold InBudget lastCause?
  rw [hmem]
  cases action.endsStream with
  | true => simp
  | false =>
    have hle := h.1
    cases hfails : action.fails with
    | true =>
      have hnone : action.complaint? ≠ none := Option.isSome_iff_ne_none.1 hfails
      rw [Action.not_works_of_fails hfails, hfails] at hsnoc
      simp only [Bool.false_eq_true, if_false, if_true] at hsnoc ⊢
      by_cases hone : failuresInARow (before ++ [action]) = allowed + 1
      · simp [hone, hnone]
      · simp only [if_neg hone, and_true, iff_true]
        omega
    | false =>
      have hnone : action.complaint? = none := Option.not_isSome_iff_eq_none.1 (by
        rw [← Action.fails, hfails]
        exact Bool.false_ne_true)
      rw [hfails] at hsnoc
      simp only [Bool.false_eq_true, if_false, Nat.add_zero] at hsnoc ⊢
      rw [hnone, ite_self, hsnoc]
      simp only [and_true, iff_true]
      split
      · exact Nat.zero_le _
      · exact hle

/-- What is not a round says nothing of the link. -/
theorem inBudget_snoc_of_not_isRound (before : List Action) (h : action.isRound = false) :
    failuresInARow (before ++ [action]) = failuresInARow before ∧
      (InBudget allowed (before ++ [action]) ↔ InBudget allowed before) := by
  have hsilent : action.works = false ∧ action.fails = false ∧ action.endsStream = false := by
    cases action with
    | write outcome => cases h
    | read outcome => cases h
    | _ => exact ⟨rfl, rfl, rfl⟩
  obtain ⟨hworks, hfails, hends⟩ := hsilent
  have hsnoc := failuresInARow_snoc before action
  rw [hworks, hfails] at hsnoc
  refine ⟨hsnoc, ?_⟩
  unfold InBudget
  rw [show failuresInARow (before ++ [action]) = failuresInARow before from hsnoc]
  simp only [List.forall_mem_append, List.forall_mem_singleton, hends, and_true]

namespace Session

variable {s s₀ t u v : Session} {settings : Settings} {actions : List Action}

/-! ### The counter -/

/-- The counter of the pump counts failures in a row. -/
theorem failures_pumpAfter (h : s.pump.failures = failuresInARow before) :
    (s.pumpAfter action).failures = failuresInARow (before ++ [action]) := by
  rw [failuresInARow_snoc, ← h]
  cases action with
  | write outcome =>
    cases outcome with
    | ok u => rfl
    | error e => rfl
  | read outcome =>
    cases outcome with
    | idle => rfl
    | received bytes =>
      cases bytes with
      | nil => rfl
      | cons byte bytes => rfl
    | failed e =>
      unfold pumpAfter Pump.read Action.fails Action.complaint? Action.works
      by_cases he : e = .timeout
      · simp [he]
      · simp [he, Pump.fail]
  | _ => rfl

/-- The pump gives up when the count says so, and for that cause. -/
theorem verdict?_giveUp_iff (hcount : s.pump.failures = failuresInARow before)
    (hle : failuresInARow before ≤ s.settings.maxFailures) :
    s.verdict? action = some (.giveUp cause) ↔
      lastCause? s.settings.maxFailures before action = some cause := by
  have hsnoc := failuresInARow_snoc before action
  have hmore : failuresInARow before + 1 = s.settings.maxFailures + 1 ↔
      s.settings.maxFailures < failuresInARow before + 1 := by omega
  unfold lastCause?
  rw [hsnoc]
  cases action with
  | write outcome =>
    cases outcome with
    | ok u => simp [verdict?, Pump.wrote, Action.endsStream, Action.complaint?]
    | error e =>
      simp only [verdict?, Pump.wrote, Pump.fail, Action.endsStream, Action.works, Action.fails,
        Action.complaint?, Option.isSome_some, if_true, Bool.false_eq_true, if_false, hmore, hcount]
      split <;> simp
  | read outcome =>
    cases outcome with
    | idle => simp [verdict?, Pump.read, Action.endsStream, Action.complaint?]
    | received bytes =>
      cases bytes with
      | nil => simp [verdict?, Pump.read, Action.endsStream]
      | cons byte bytes => simp [verdict?, Pump.read, Action.endsStream, Action.complaint?]
    | failed e =>
      by_cases he : e = .timeout
      · simp [verdict?, Pump.read, Action.endsStream, Action.complaint?, he]
      · simp only [verdict?, Pump.read, Pump.fail, Action.endsStream, Action.works, Action.fails,
          Action.complaint?, he, Option.isSome_some, if_true, Bool.false_eq_true, if_false, hmore,
          hcount]
        split <;> simp
  | _ => simp [verdict?, Action.endsStream, Action.complaint?]

/-! ### One more action -/

/-- How the pump stands after a run. -/
structure Counted (settings : Settings) (actions : List Action) (t : Session) : Prop where
  count : t.pump.failures = failuresInARow actions
  le : failuresInARow actions ≤ settings.maxFailures + 1
  budget : t.cancelled = false →
    (t.pumpState.isOver = false ↔ InBudget settings.maxFailures actions)

theorem Counted.step (h : Counted settings before u) (hu : u.Reachable)
    (hset : u.settings = settings) (hstep : u.step? action = some v) :
    Counted settings (before ++ [action]) v := by
  have hpump := pump_of_step? (.of_reachable hu) hstep
  have hcount : v.pump.failures = failuresInARow (before ++ [action]) := by
    rw [hpump]
    exact failures_pumpAfter h.count
  cases hround : action.isRound with
  | false =>
    obtain ⟨hsame, hbudget⟩ := inBudget_snoc_of_not_isRound before hround
    refine ⟨hcount, Nat.le_trans (Nat.le_of_eq hsame) h.le, ?_⟩
    intro hkept
    rw [hbudget]
    rcases pumpState_of_not_isRound hstep hround with heq | ⟨-, hcancel, -⟩
    · rw [heq]
      exact h.budget ((Lasting.of_step? hstep).not_cancelled hkept)
    · rw [hkept] at hcancel
      cases hcancel
  | true =>
    -- a pump that takes a round without having been told to stop is within its budget
    have hwithin : u.IsRunning → InBudget settings.maxFailures before :=
      fun hrun => (h.budget hrun.1).1 hrun.2
    have hle : u.IsRunning → failuresInARow (before ++ [action]) ≤ settings.maxFailures + 1 := by
      intro hrun
      have hbefore := (hwithin hrun).1
      rw [failuresInARow_snoc]
      split
      · exact Nat.zero_le _
      · split <;> omega
    have hgives : u.IsRunning → ∀ cause, u.verdict? action = some (.giveUp cause) ↔
        lastCause? settings.maxFailures before action = some cause := by
      intro hrun cause
      rw [← hset]
      exact verdict?_giveUp_iff h.count (hset ▸ (hwithin hrun).1)
    cases round_of_step? hstep hround with
    | halted haction hcancel hrun ht =>
      have hsame : failuresInARow (before ++ [action]) = failuresInARow before := by
        rw [failuresInARow_snoc, haction]
        rfl
      refine ⟨hcount, Nat.le_trans (Nat.le_of_eq hsame) h.le, ?_⟩
      intro hkept
      rw [(Lasting.of_step? hstep).cancelled hcancel] at hkept
      cases hkept
    | wentOn hrun hverdict hno hw ht =>
      refine ⟨hcount, hle hrun, fun _ => ?_⟩
      obtain ⟨pumpState, alarms, heq, hgoing, -⟩ := obey_eq _ hno
      rw [ht, heq, inBudget_snoc (hwithin hrun)]
      refine iff_of_true hgoing (Option.eq_none_iff_forall_ne_some.2 fun cause hcause => ?_)
      have hgive := (hgives hrun cause).2 hcause
      rw [hverdict] at hgive
      exact hno cause (Option.some.inj hgive)
    | @gaveUp w cause hrun hverdict hw hidle ht =>
      refine ⟨hcount, hle hrun, fun _ => ?_⟩
      rw [ht, (giveUp_spec w cause).isOver, inBudget_snoc (hwithin hrun),
        (hgives hrun cause).1 hverdict]
      exact iff_of_false nofun nofun

theorem counted_of_run? (h₀ : ofSettings settings = .ok s₀) (hrun : s₀.run? actions = some t) :
    Counted settings actions t := by
  induction actions using List.reverseRecOn generalizing t with
  | nil =>
    obtain rfl : s₀ = t := by simpa using hrun
    rw [eq_of_ofSettings h₀]
    exact ⟨rfl, Nat.zero_le _, fun _ => iff_of_true rfl ⟨Nat.zero_le _, nofun⟩⟩
  | append_singleton before action ih =>
    obtain ⟨u, hbefore, hstep⟩ := run?_concat_eq_some.1 hrun
    have hu : u.Reachable := ⟨settings, s₀, before, h₀, hbefore⟩
    refine (ih hbefore).step hu ?_ hstep
    rw [settings_eq_of_run? hbefore, eq_of_ofSettings h₀]

/-- The last round of a pump that gives up. -/
theorem last_of_giveUp (hs : s.Reachable) (hrun : s.IsRunning) (hstep : s.step? action = some t)
    (hverdict : s.verdict? action = some (.giveUp cause)) :
    t.pumpState.isOver = true ∧
      t.lifecycle.told = s.lifecycle.told ++
        (Lifecycle.reached s.lifecycle.listeners).map (fun l => (l.id, .linkLost cause)) ∧
      (s.lifecycle.breaksOff = false →
        t.replies = s.replies ++ lastReplies s.outstanding (.linkLost cause)) := by
  cases round_of_step? hstep (isRound_of_verdict? hverdict) with
  | halted haction hcancel hgoing ht =>
    rw [haction] at hverdict
    cases hverdict
  | wentOn hgoing hverdict' hno hw ht =>
    rw [hverdict] at hverdict'
    exact absurd (Option.some.inj hverdict').symm (hno cause)
  | @gaveUp w cause' hgoing hverdict' hw hidle ht =>
    rw [hverdict] at hverdict'
    obtain rfl : cause = cause' := Verdict.giveUp.inj (Option.some.inj hverdict')
    have hlive := ((LifeSound.of_reachable hs).open_of_isRunning hrun).1
    have hgiven := giveUp_spec w cause
    refine ⟨ht ▸ hgiven.isOver, ?_, ?_⟩
    · rw [ht, hgiven.lifecycle, hw.unmoved.lifecycle, Lifecycle.terminate, hlive]
      rfl
    · intro hb
      rw [← hw.unmoved.lifecycle] at hb
      obtain ⟨ready, heq⟩ := giveUp_eq cause hb
      rw [ht, heq, ← hidle.1, ← hidle.2.1]

/-- **Failures in a row.** After any run the pump's counter says how many failures in a row the link
has had, which is never more than one too many. A pump that nobody has stopped is at work exactly as
long as they are within what it has been allowed and the stream has not ended, and while it is at
work it writes or reads unless it rests for a moment. It is over after an action exactly if that has
brought the one failure too many or the end of the stream; then this is the cause that it tells, and
it takes no round any more. -/
theorem gives_up_over_budget (h₀ : ofSettings settings = .ok s₀) :
    (∀ actions t, s₀.run? actions = some t →
      t.pump.failures = failuresInARow actions ∧
      (settings.maxFailures < 2 ^ 32 - 1 → t.pump.failures < 2 ^ 32) ∧
      (t.cancelled = false →
        (t.pumpState.isOver = false ↔ InBudget settings.maxFailures actions)) ∧
      (t.IsRunning → (∃ frame, t.want = .write frame) ∨ t.want = .read ∨
        ∃ wakeAt, t.pumpState = .resting wakeAt ∧ t.now < wakeAt ∧
          wakeAt ≤ t.now + Pump.restTime)) ∧
    ∀ before action u v, s₀.run? before = some u → u.IsRunning → u.step? action = some v →
      v.cancelled = false →
      (v.pumpState.isOver = true ↔ (lastCause? settings.maxFailures before action).isSome = true) ∧
      ∀ cause, lastCause? settings.maxFailures before action = some cause →
        u.verdict? action = some (.giveUp cause) ∧
        v.lifecycle.told = u.lifecycle.told ++
          (Lifecycle.reached u.lifecycle.listeners).map (fun l => (l.id, .linkLost cause)) ∧
        (u.lifecycle.breaksOff = false →
          v.replies = u.replies ++ lastReplies u.outstanding (.linkLost cause)) ∧
        ∀ after t, v.run? after = some t → ∀ action ∈ after, action.isRound = false := by
  refine ⟨?_, ?_⟩
  · intro actions t hrun
    have hcounted := counted_of_run? h₀ hrun
    refine ⟨hcounted.count, ?_, hcounted.budget, goes_on ⟨settings, s₀, actions, h₀, hrun⟩⟩
    intro hsmall
    have hle := hcounted.le
    rw [hcounted.count]
    omega
  · intro before action u v hbefore hrun hstep hkept
    have hu : u.Reachable := ⟨settings, s₀, before, h₀, hbefore⟩
    have hset : u.settings = settings := by
      rw [settings_eq_of_run? hbefore, eq_of_ofSettings h₀]
    have hcounted := counted_of_run? h₀ hbefore
    have hwithin := (hcounted.budget hrun.1).1 hrun.2
    refine ⟨?_, ?_⟩
    · have hbudget := (hcounted.step hu hset hstep).budget hkept
      rw [inBudget_snoc hwithin] at hbudget
      rw [Option.isSome_iff_ne_none, ← not_iff_not, not_not, ← hbudget, Bool.not_eq_true]
    · intro cause hcause
      have hverdict : u.verdict? action = some (.giveUp cause) := by
        rw [verdict?_giveUp_iff hcounted.count (hset ▸ hwithin.1), hset]
        exact hcause
      obtain ⟨hover, htold, hreplies⟩ := last_of_giveUp hu hrun hstep hverdict
      exact ⟨hverdict, htold, hreplies,
        fun after t hafter => not_isRound_of_over_of_run hover hafter⟩

/-- A failed write, nothing to read in time and a failed read; some noise, then two failed reads. -/
def flaky : List Action :=
  [.listen ⟨7, false⟩, .call (.send (.bare 0x00 0x01)), .write (.error (.link "busy")),
    .read (.failed .timeout), .read (.failed (.link "lost bits")), .pass 10,
    .read (.received [0x55]), .read (.failed (.link "lost bits")), .pass 10, .read .idle,
    .read (.failed (.link "lost bits")), .call (.exchange (.bare 0x00 0x08) none), .pass 10]

/-- Two failures in a row are allowed; the third is a failed write. -/
theorem gives_up_over_budget_flaky : ∃ s₀ u v t, ofSettings { maxFailures := 2 } = .ok s₀ ∧
    s₀.run? flaky = some u ∧ failuresInARow flaky = 2 ∧ u.pump.failures = 2 ∧
    u.pumpState.isOver = false ∧ u.step? (.write (.error (.link "unplugged"))) = some v ∧
    v.pumpState.isOver = true ∧
    v.lifecycle.told = [(7, .linkLost "write failed: transport error: unplugged")] ∧
    v.run? [.turn 1, .call .shutdown] = some t ∧ t.cancelled = true ∧ t.pump.failures = 3 := by
  have hgives : ∀ {s₀ u v : Session}, ofSettings { maxFailures := 2 } = .ok s₀ →
      s₀.run? flaky = some u → u.step? (.write (.error (.link "unplugged"))) = some v →
      u.lifecycle = { listeners := [⟨7, false⟩] } → u.cancelled = false → v.cancelled = false →
      u.pump.failures = 2 ∧ u.pumpState.isOver = false ∧ v.pumpState.isOver = true ∧
        v.lifecycle.told = [(7, .linkLost "write failed: transport error: unplugged")] := by
    intro s₀ u v h₀ hrun hstep hlife hcancel hkept
    obtain ⟨hstates, hsteps⟩ := gives_up_over_budget h₀
    obtain ⟨hcount, -, hbudget, -⟩ := hstates flaky u hrun
    have hgoing := (hbudget hcancel).2 ⟨by decide, by decide⟩
    obtain ⟨hover, hlast⟩ := hsteps flaky _ u v hrun ⟨hcancel, hgoing⟩ hstep hkept
    obtain ⟨-, htold, -⟩ := hlast _ rfl
    rw [hlife] at htold
    exact ⟨hcount, hgoing, hover.2 rfl, htold⟩
  have h₀ : ofSettings { maxFailures := 2 } = .ok _ := rfl
  obtain ⟨hcount, hgoing, hover, htold⟩ := hgives h₀
    (Option.some_get (by decide +kernel)).symm (Option.some_get (by decide +kernel)).symm
    (by decide +kernel) (by decide +kernel) (by decide +kernel)
  refine ⟨_, _, _, _, h₀, (Option.some_get (by decide +kernel)).symm, by decide, hcount, hgoing,
    (Option.some_get (by decide +kernel)).symm, hover, htold,
    (Option.some_get (by decide +kernel)).symm, ?_, ?_⟩
  all_goals decide +kernel

end Session

end BleHost
