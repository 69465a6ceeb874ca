import BleHost.Proofs.Session.Rounds
import Mathlib.Data.List.Induction

/-!
# Who is told of a failure

A session lives from one event to the next: somebody asks to be told of a failure, the link fails
for good, the session is shut down or taken down (`LifeEvent`). Whatever happens in whatever order
and however often, the first end decides: if it is a failure, those who have asked until then are
told its cause, each once for every time he has asked, and if not, nobody is ever told anything
(`told_of_first_end`). The events of a session are known from what happens to it
(`lifecycle_eq_ofEvents`).
-/

namespace BleHost

/-- Something that happens to the life of a session. -/
inductive LifeEvent
  /-- Somebody asks to be told of a failure. -/
  | listen (listener : LifecycleListener)
  /-- The link fails for good. -/
  | fail (cause : String)
  /-- The session is shut down or taken down. -/
  | stop
deriving DecidableEq

namespace LifeEvent

/-- Whether an event ends the life of a session that is alive. -/
def ends : LifeEvent → Bool
  | listen _ => false
  | fail _ | stop => true

/-- Who asks to be told. -/
def listener? : LifeEvent → Option LifecycleListener
  | listen listener => some listener
  | fail _ | stop => none

/-- Those who have asked to be told before the first end, in order. -/
def audience (events : List LifeEvent) : List LifecycleListener :=
  (events.takeWhile fun event => !event.ends).filterMap listener?

/-- The cause of the first end, if that is a failure. -/
def failure? (events : List LifeEvent) : Option String :=
  match events.find? ends with
  | some (fail cause) => some cause
  | _ => none

theorem failure?_eq_some {events : List LifeEvent} {cause : String} :
    failure? events = some cause ↔ ∃ before after, events = before ++ fail cause :: after ∧
      ∀ event ∈ before, event.ends = false := by
  have hfind : failure? events = some cause ↔ events.find? ends = some (fail cause) := by
    unfold failure?
    split
    · rename_i cause' heq
      rw [heq, Option.some.injEq, Option.some.injEq, fail.injEq]
    · rename_i hno
      exact iff_of_false nofun (hno cause)
  rw [hfind, List.find?_eq_some_iff_append]
  constructor
  · rintro ⟨-, before, after, rfl, hbefore⟩
    exact ⟨before, after, rfl, fun event hmem => by simpa using hbefore event hmem⟩
  · rintro ⟨before, after, rfl, hbefore⟩
    exact ⟨rfl, before, after, rfl, fun event hmem => by simpa using hbefore event hmem⟩

/-- Only the events before the first end count. -/
theorem audience_append {before after : List LifeEvent} {event : LifeEvent}
    (hbefore : ∀ event ∈ before, event.ends = false) (hends : event.ends = true) :
    audience (before ++ event :: after) = before.filterMap listener? := by
  have hall : ∀ event ∈ before, (!event.ends) = true :=
    fun event hmem => by rw [hbefore event hmem]; rfl
  unfold audience
  rw [List.takeWhile_append_of_pos hall, List.takeWhile_cons, hends]
  simp

theorem mem_filterMap_listener? {events : List LifeEvent} {listener : LifecycleListener} :
    listener ∈ events.filterMap listener? ↔ listen listener ∈ events := by
  rw [List.mem_filterMap]
  constructor
  · rintro ⟨event, hmem, heq⟩
    cases event with
    | listen listener' =>
      rwa [← Option.some.inj heq]
    | fail cause => cases heq
    | stop => cases heq
  · exact fun hmem => ⟨listen listener, hmem, rfl⟩

theorem audience_prefix_listeners (events : List LifeEvent) :
    audience events <+: events.filterMap listener? :=
  (List.takeWhile_prefix _).filterMap _

end LifeEvent

namespace Lifecycle

open LifeEvent

variable {l : Lifecycle} {events : List LifeEvent}

/-- A life after one more event. -/
def after (l : Lifecycle) : LifeEvent → Lifecycle
  | .listen listener => l.listen listener
  | .fail cause => l.terminate (.linkLost cause)
  | .stop => l.stop.2

/-- A life after some events, in order. -/
def ofEvents (events : List LifeEvent) : Lifecycle := events.foldl after {}

/-- What those are answered who stop a session: whether it was alive until then. -/
def answers (l : Lifecycle) : List LifeEvent → List Bool
  | [] => []
  | .stop :: events => l.stop.1 :: l.stop.2.answers events
  | event :: events => (l.after event).answers events

/-- An event tells nobody anything who was not to be told before the end. -/
theorem after_of_dead (hdead : l.dead = true) (event : LifeEvent) :
    (l.after event).dead = true ∧ (l.after event).told = l.told := by
  cases event with
  | listen listener => exact ⟨hdead, rfl⟩
  | fail cause =>
    rw [show l.after (.fail cause) = l from if_pos hdead]
    exact ⟨hdead, rfl⟩
  | stop => exact ⟨rfl, rfl⟩

/-- Nothing comes after death. -/
theorem foldl_after_of_dead (hdead : l.dead = true) (events : List LifeEvent) :
    (events.foldl after l).dead = true ∧ (events.foldl after l).told = l.told := by
  induction events generalizing l with
  | nil => exact ⟨hdead, rfl⟩
  | cons event events ih =>
    obtain ⟨hdead', htold⟩ := after_of_dead hdead event
    obtain ⟨hlast, htold'⟩ := ih hdead'
    exact ⟨hlast, htold'.trans htold⟩

theorem dead_foldl_after (l : Lifecycle) (events : List LifeEvent) :
    (events.foldl after l).dead = true ↔ l.dead = true ∨ ∃ event ∈ events, event.ends = true := by
  induction events generalizing l with
  | nil => simp
  | cons event events ih =>
    rw [List.foldl_cons, ih]
    simp only [List.mem_cons, exists_eq_or_imp]
    cases event with
    | listen listener => simp [after, listen, ends]
    | fail cause => simp [after, ends]
    | stop => simp [after, ends]

/-- What those are told who listen to a session that is alive. -/
theorem told_foldl_after (hlive : l.dead = false) (events : List LifeEvent) :
    (events.foldl after l).told = l.told ++ (failure? events).toList.flatMap fun cause =>
      (reached (l.listeners ++ audience events)).map fun listener =>
        (listener.id, .linkLost cause) := by
  induction events generalizing l with
  | nil => simp [failure?]
  | cons event events ih =>
    rw [List.foldl_cons]
    cases event with
    | listen listener =>
      have hlater : failure? (.listen listener :: events) = failure? events ∧
          audience (.listen listener :: events) = listener :: audience events := ⟨rfl, rfl⟩
      rw [ih (l := l.after (.listen listener)) hlive, hlater.1, hlater.2]
      simp [after, listen]
    | fail cause =>
      have hend : l.after (.fail cause) =
          { dead := true
            listeners := []
            told := l.told ++ (reached l.listeners).map fun listener =>
              (listener.id, .linkLost cause) } :=
        if_neg (by rw [hlive]; exact Bool.false_ne_true)
      have hnow : failure? (.fail cause :: events) = some cause ∧
          audience (.fail cause :: events) = [] := ⟨rfl, rfl⟩
      rw [(foldl_after_of_dead (by rw [hend]) events).2, hend, hnow.1, hnow.2]
      simp
    | stop =>
      rw [(foldl_after_of_dead (l := l.after .stop) rfl events).2]
      simp [failure?, ends, after, Lifecycle.stop]

/-- Who stops a session that is not alive is told so. -/
theorem count_answers_of_dead (hdead : l.dead = true) (events : List LifeEvent) :
    (l.answers events).count true = 0 := by
  induction events generalizing l with
  | nil => rfl
  | cons event events ih =>
    have hnext := ih (after_of_dead hdead event).1
    cases event with
    | listen listener => exact hnext
    | fail cause => exact hnext
    | stop =>
      have hanswer : l.stop.1 = false := by
        rw [Lifecycle.stop, hdead]
        rfl
      rw [answers, hanswer, List.count_cons_of_ne Bool.false_ne_true]
      exact hnext

/-- A session is stopped alive once at most. -/
theorem count_answers_le_one (l : Lifecycle) (events : List LifeEvent) :
    (l.answers events).count true ≤ 1 := by
  induction events generalizing l with
  | nil => exact Nat.zero_le _
  | cons event events ih =>
    cases event with
    | listen listener => exact ih _
    | fail cause => exact ih _
    | stop =>
      have hrest := count_answers_of_dead (l := l.stop.2) rfl events
      rw [answers, List.count_cons, hrest]
      split <;> decide

/-- Whoever listens has asked for it. -/
theorem mem_listeners_foldl_after {listener : LifecycleListener}
    (h : listener ∈ (events.foldl after l).listeners) :
    listener ∈ l.listeners ∨ .listen listener ∈ events := by
  induction events generalizing l with
  | nil => exact .inl h
  | cons event events ih =>
    rcases ih h with hmem | hmem
    · cases event with
      | listen listener' =>
        rcases List.mem_append.1 hmem with hold | hnew
        · exact .inl hold
        · rw [List.mem_singleton.1 hnew]
          exact .inr List.mem_cons_self
      | fail cause =>
        unfold after terminate at hmem
        dsimp only at hmem
        split at hmem
        · exact .inl hmem
        · cases hmem
      | stop => cases hmem
    · exact .inr (List.mem_cons_of_mem _ hmem)

/-- What those are told who do not break off the telling. -/
theorem told_ofEvents (hquiet : ∀ listener, .listen listener ∈ events → listener.panics = false) :
    (ofEvents events).told = (failure? events).toList.flatMap fun cause =>
      (audience events).map fun listener => (listener.id, .linkLost cause) := by
  have hreached : reached (audience events) = audience events := reached_eq fun listener hmem =>
    hquiet listener (mem_filterMap_listener?.1 ((audience_prefix_listeners events).subset hmem))
  have htold := told_foldl_after (l := {}) rfl events
  simp only [List.nil_append, hreached] at htold
  exact htold

theorem mem_told_ofEvents
    (hquiet : ∀ listener, .listen listener ∈ events → listener.panics = false)
    (id : Nat) (e : Error) : (id, e) ∈ (ofEvents events).told ↔
      ∃ before cause after listener, events = before ++ .fail cause :: after ∧
        (∀ event ∈ before, event.ends = false) ∧ .listen listener ∈ before ∧
        id = listener.id ∧ e = .linkLost cause := by
  rw [told_ofEvents hquiet, List.mem_flatMap]
  constructor
  · rintro ⟨cause, hcause, hmem⟩
    obtain ⟨before, after, rfl, hbefore⟩ := failure?_eq_some.1 (Option.mem_toList.1 hcause)
    rw [audience_append hbefore rfl] at hmem
    obtain ⟨listener, hlistener, heq⟩ := List.mem_map.1 hmem
    obtain ⟨rfl, rfl⟩ := Prod.mk.inj heq
    exact ⟨before, cause, after, listener, rfl, hbefore, mem_filterMap_listener?.1 hlistener, rfl,
      rfl⟩
  · rintro ⟨before, cause, after, listener, rfl, hbefore, hlistener, rfl, rfl⟩
    refine ⟨cause, Option.mem_toList.2 (failure?_eq_some.2 ⟨before, after, rfl, hbefore⟩), ?_⟩
    rw [audience_append hbefore rfl]
    exact List.mem_map.2 ⟨listener, mem_filterMap_listener?.2 hlistener, rfl⟩

/-- Nobody is told more often than he has asked. -/
theorem count_told_ofEvents_le
    (hquiet : ∀ listener, .listen listener ∈ events → listener.panics = false) (id : Nat) :
    ((ofEvents events).told.map (·.1)).count id ≤
      ((events.filterMap listener?).map (·.id)).count id := by
  rw [told_ofEvents hquiet]
  cases failure? events with
  | none => exact Nat.zero_le _
  | some cause =>
    have hids : ((some cause).toList.flatMap fun cause => (audience events).map fun listener =>
        (listener.id, Error.linkLost cause)).map (·.1) = (audience events).map (·.id) := by
      simp
    rw [hids]
    exact ((audience_prefix_listeners events).map _).sublist.count_le id

end Lifecycle

namespace Session

open LifeEvent

variable {s s₀ t u : Session} {action : Action} {actions : List Action}

/-- What an action means for the life of a session. -/
def lifeEvents (s : Session) (action : Action) : List LifeEvent :=
  match action with
  | .listen listener => [.listen listener]
  | .call .shutdown => [.stop]
  | .write _ | .read _ =>
    match s.verdict? action with
    | some (.giveUp cause) => [.fail cause]
    | _ => []
  | _ => if (s.step? action).any fun t => !s.takenDown && t.takenDown then [.stop] else []

/-- What a caller does who neither listens nor shuts the session down. -/
theorem lifecycle_of_handled (hstep : s.step? action = some t) (hahead : s.ahead action = s ∨
      action = .release) (h : Handled (s.ahead action) t) : t.lifecycle =
    (if (s.step? action).any fun t => !s.takenDown && t.takenDown then [LifeEvent.stop]
      else []).foldl Lifecycle.after s.lifecycle := by
  have hsame : (s.ahead action).lifecycle = s.lifecycle ∧
      (s.ahead action).takenDown = s.takenDown := by
    rcases hahead with heq | rfl
    · rw [heq]
      exact ⟨rfl, rfl⟩
    · exact ⟨rfl, rfl⟩
  rw [hstep, Option.any_some]
  cases h with
  | on h =>
    rw [h.takenDown, hsame.2, Bool.not_and_self]
    exact h.lifecycle.trans hsame.1
  | down h =>
    rw [h.takenDown, ← hsame.2, h.first]
    exact h.lifecycle.trans (by rw [hsame.1]; rfl)

/-- What any action means for the life of a session is all that changes it. -/
theorem lifecycle_of_step? (hstep : s.step? action = some t) :
    t.lifecycle = (s.lifeEvents action).foldl Lifecycle.after s.lifecycle := by
  have hround : action.isRound = true → action ≠ .halt → t.lifecycle =
      (match s.verdict? action with
        | some (.giveUp cause) => [LifeEvent.fail cause]
        | _ => []).foldl Lifecycle.after s.lifecycle := by
    intro hround hne
    cases round_of_step? hstep hround with
    | halted haction hcancel hrun ht => exact absurd haction hne
    | wentOn hrun hverdict hno hw ht =>
      obtain ⟨pumpState, alarms, heq, -⟩ := obey_eq _ hno
      rw [ht, heq, hverdict]
      split
      · rename_i cause hgive
        exact absurd (Option.some.inj hgive) (hno cause)
      · exact hw.unmoved.lifecycle
    | @gaveUp w cause hrun hverdict hw hidle ht =>
      rw [ht, (giveUp_spec w cause).lifecycle, hw.unmoved.lifecycle, hverdict]
      rfl
  cases action with
  | listen listener =>
    cases handled_of_step? hstep rfl (by rintro ⟨⟩) with
    | on h => exact h.lifecycle
    | down h =>
      simp only [step?] at hstep
      split at hstep
      · cases hstep
      · rename_i hkept
        exact absurd h.needless hkept
  | write outcome => exact hround rfl (by rintro ⟨⟩)
  | read outcome => exact hround rfl (by rintro ⟨⟩)
  | halt =>
    cases round_of_step? hstep rfl with
    | halted haction hcancel hrun ht =>
      obtain ⟨ready, heq, -⟩ := closeOutstanding_conclude_eq s .dead
      have hsame : t.takenDown = s.takenDown ∧ t.lifecycle = s.lifecycle := by
        rw [ht, halt, heq]
        exact ⟨rfl, rfl⟩
      have hmeans : s.lifeEvents .halt =
          if (s.step? .halt).any fun t => !s.takenDown && t.takenDown then [.stop] else [] := rfl
      rw [hmeans, hstep, Option.any_some, hsame.1, Bool.not_and_self]
      exact hsame.2
    | wentOn hrun hverdict hno hw ht => cases hverdict
    | gaveUp hrun hverdict hw hidle ht => cases hverdict
  | call request =>
    by_cases hrequest : request = .shutdown
    · subst hrequest
      exact (unmoved_of_shutdown hstep).lifecycle
    · have hmeans : s.lifeEvents (.call request) =
          if (s.step? (.call request)).any fun t => !s.takenDown && t.takenDown then [.stop]
          else [] := by
        cases request with
        | shutdown => exact absurd rfl hrequest
        | _ => rfl
      rw [hmeans]
      exact lifecycle_of_handled hstep (.inl rfl) (handled_of_step? hstep rfl fun h =>
        hrequest (Action.call.inj h))
  | release =>
    exact lifecycle_of_handled hstep (.inr rfl) (handled_of_step? hstep rfl (by rintro ⟨⟩))
  | _ => exact lifecycle_of_handled hstep (.inl rfl) (handled_of_step? hstep rfl (by rintro ⟨⟩))

/-- The life of a session follows from what has happened to it. -/
theorem lifecycle_eq_ofEvents {settings : Settings} (h₀ : ofSettings settings = .ok s₀)
    (hrun : s₀.run? actions = some t) :
    t.lifecycle = .ofEvents (gather lifeEvents s₀ actions) := by
  induction actions using List.reverseRecOn generalizing t with
  | nil =>
    obtain rfl : s₀ = t := by simpa using hrun
    rw [eq_of_ofSettings h₀]
    rfl
  | append_singleton before action ih =>
    obtain ⟨u, hbefore, hstep⟩ := run?_concat_eq_some.1 hrun
    rw [gather_append hbefore, gather_cons hstep, gather, List.append_nil, Lifecycle.ofEvents,
      List.foldl_append, ← Lifecycle.ofEvents, ← ih hbefore]
    exact lifecycle_of_step? hstep

/-- If nobody who is asked for breaks off the telling, nobody who listens does. -/
theorem quiet_of_run? {settings : Settings} (h₀ : ofSettings settings = .ok s₀)
    (hrun : s₀.run? actions = some t)
    (hquiet : ∀ listener, .listen listener ∈ actions → listener.panics = false) :
    ∀ listener ∈ t.lifecycle.listeners, listener.panics = false := by
  intro listener hmem
  rw [lifecycle_eq_ofEvents h₀ hrun] at hmem
  rcases Lifecycle.mem_listeners_foldl_after hmem with hnone | hevent
  · cases hnone
  obtain ⟨before, action, after, u, v, rfl, -, -, heach⟩ := exists_of_mem_gather hevent
  suffices haction : action = .listen listener from
    hquiet listener (haction ▸ List.mem_append_right _ List.mem_cons_self)
  unfold lifeEvents at heach
  split at heach
  · rw [LifeEvent.listen.inj (List.mem_singleton.1 heach)]
  · cases List.mem_singleton.1 heach
  · split at heach
    · cases List.mem_singleton.1 heach
    · cases heach
  · split at heach
    · cases List.mem_singleton.1 heach
    · cases heach
  · split at heach
    · cases List.mem_singleton.1 heach
    · cases heach

/-- **Who is told of a failure.** Let listeners who do not break off the telling be asked for, and
let the link fail for good, the session be shut down or taken down, in any order and any number of
times. Then a listener has been told something exactly if he was asked for before the first failure
and that came before any other end, namely the cause of that failure; and nobody is told more often
than he was asked for. A session that has come to an end is not alive any more and tells nobody
anything else; to stop it tells nobody, and one stop at most finds it alive. The life of any session
is of this kind. -/
theorem told_of_first_end (events : List LifeEvent)
    (hquiet : ∀ listener, .listen listener ∈ events → listener.panics = false) :
    (∀ id e, (id, e) ∈ (Lifecycle.ofEvents events).told ↔
      ∃ before cause after listener, events = before ++ .fail cause :: after ∧
        (∀ event ∈ before, event.ends = false) ∧ .listen listener ∈ before ∧
        id = listener.id ∧ e = .linkLost cause) ∧
    (∀ id, ((Lifecycle.ofEvents events).told.map (·.1)).count id ≤
      ((events.filterMap listener?).map (·.id)).count id) ∧
    ((Lifecycle.ofEvents events).dead = true ↔ ∃ event ∈ events, event.ends = true) ∧
    (∀ more, (Lifecycle.ofEvents events).dead = true →
      (Lifecycle.ofEvents (events ++ more)).dead = true ∧
        (Lifecycle.ofEvents (events ++ more)).told = (Lifecycle.ofEvents events).told) ∧
    (Lifecycle.ofEvents (events ++ [.stop])).told = (Lifecycle.ofEvents events).told ∧
    (Lifecycle.answers {} events).count true ≤ 1 ∧
    ∀ settings s₀ actions t, ofSettings settings = .ok s₀ → s₀.run? actions = some t →
      t.lifecycle = .ofEvents (gather lifeEvents s₀ actions) := by
  refine ⟨Lifecycle.mem_told_ofEvents hquiet, Lifecycle.count_told_ofEvents_le hquiet, ?_, ?_, ?_,
    Lifecycle.count_answers_le_one _ _, fun _ _ _ _ h₀ hrun => lifecycle_eq_ofEvents h₀ hrun⟩
  · have hdead := Lifecycle.dead_foldl_after {} events
    rwa [or_iff_right Bool.false_ne_true] at hdead
  · intro more hdead
    rw [Lifecycle.ofEvents, List.foldl_append]
    exact Lifecycle.foldl_after_of_dead hdead more
  · rw [Lifecycle.ofEvents, List.foldl_append]
    rfl

/-- Two listeners before the link fails for good, one afterwards; then the session is shut down
twice, and let go of. -/
def cutShort : List Action :=
  [.listen ⟨7, false⟩, .call (.exchange (.bare 0x00 0x01) none), .listen ⟨8, false⟩,
    .write (.ok ()), .read (.received []), .listen ⟨9, false⟩, .call .shutdown, .call .shutdown,
    .turn 0, .release]

/-- The two who asked in time are told. -/
theorem told_of_first_end_cut_short : ∃ s₀ t, ofSettings {} = .ok s₀ ∧
    s₀.run? cutShort = some t ∧ gather lifeEvents s₀ cutShort = [.listen ⟨7, false⟩,
      .listen ⟨8, false⟩, .fail "end of stream", .listen ⟨9, false⟩, .stop, .stop, .stop] ∧
    t.isAlive = false ∧ (8, .linkLost "end of stream") ∈ t.lifecycle.told ∧
    t.lifecycle.told.map (·.1) = [7, 8] := by
  have htold : ∀ {s₀ t : Session}, ofSettings {} = .ok s₀ → s₀.run? cutShort = some t →
      gather lifeEvents s₀ cutShort = [.listen ⟨7, false⟩, .listen ⟨8, false⟩,
        .fail "end of stream", .listen ⟨9, false⟩, .stop, .stop, .stop] →
      t.isAlive = false ∧ (8, .linkLost "end of stream") ∈ t.lifecycle.told := by
    intro s₀ t h₀ hrun hevents
    obtain ⟨hmem, -, hdead, -, -, -, hlife⟩ := told_of_first_end
      [.listen ⟨7, false⟩, .listen ⟨8, false⟩, .fail "end of stream", .listen ⟨9, false⟩, .stop,
        .stop, .stop] (by simp)
    rw [isAlive, hlife _ _ _ _ h₀ hrun, hevents]
    refine ⟨?_, (hmem _ _).2 ⟨[.listen ⟨7, false⟩, .listen ⟨8, false⟩], "end of stream",
      [.listen ⟨9, false⟩, .stop, .stop, .stop], ⟨8, false⟩, rfl, by simp [ends], by simp, rfl,
      rfl⟩⟩
    rw [hdead.2 ⟨.stop, by simp, rfl⟩]
    rfl
  have h₀ : ofSettings {} = .ok _ := rfl
  obtain ⟨hend, hmem⟩ := htold h₀ (Option.some_get (by decide +kernel)).symm (by decide +kernel)
  exact ⟨_, _, h₀, (Option.some_get (by decide +kernel)).symm, by decide +kernel, hend, hmem,
    by decide +kernel⟩

end Session

end BleHost
