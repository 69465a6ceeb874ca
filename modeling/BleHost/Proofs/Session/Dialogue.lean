import BleHost.Proofs.Frame.Assembly
import BleHost.Proofs.Session.Correlation
import BleHost.Proofs.Session.Queue
import Mathlib.Data.List.Infix

/-!
# The dialogue with the module

Seen from the link, a run is a list of frames that are sent and received (`Session.log`). The frames
that were sent and taken are questions, and the responses that come back for them are answers. A
module keeps to the order (`Orderly`) if at every moment the answers so far answer the first of the
questions so far; what has not been answered yet is then known from the list (`unanswered`), and
every answer answers the first of it (`Orderly.answer`).
-/

namespace BleHost

/-- One frame that goes over the link, with what came of it. -/
inductive Transfer
  | sent (frame : Outgoing) (outcome : Except Error Unit)
  | received (frame : Frame)

/-- The identity in the header of a frame that is sent. -/
def Outgoing.identity? (o : Outgoing) : Option Identity := (Frame.ofBytes? o.bytes).map (·.id)

theorem Outgoing.identity?_eq {o : Outgoing} {c : Command} (h : o.bytes = c.bytes) :
    o.identity? = some c.responseId := by
  rw [identity?, h, Command.bytes, Frame.ofBytes?_bytes]
  rfl

namespace Session

variable {i : Nat} {s t u : Session} {action : Action} {actions : List Action} {f : Frame}
  {o : Outgoing} {uses : Identity → Bool} {past later : List (Session × Transfer)}

/-! ### What goes over the link -/

/-- The frames that an action sends or receives, each with the session that it meets. -/
def transfers (s : Session) : Action → List (Session × Transfer)
  | .write outcome =>
    match s.want with
    | .write frame => [(s, .sent frame outcome)]
    | _ => []
  | action => (s.handouts action).map fun p => (p.1, .received p.2)

/-- The frames that are sent and received during a run, in order. -/
def log (s : Session) : List Action → List (Session × Transfer)
  | [] => []
  | action :: actions =>
    match s.step? action with
    | none => []
    | some t => s.transfers action ++ t.log actions

/-- The sessions that a run goes through. -/
def trail (s : Session) : List Action → List Session
  | [] => [s]
  | action :: actions =>
    match s.step? action with
    | none => [s]
    | some t => s :: t.trail actions

theorem log_cons (h : s.step? action = some t) :
    s.log (action :: actions) = s.transfers action ++ t.log actions := by
  rw [log, h]

theorem trail_cons (h : s.step? action = some t) :
    s.trail (action :: actions) = s :: t.trail actions := by
  rw [trail, h]

theorem log_append {actions' : List Action} (h : s.run? actions = some t) :
    s.log (actions ++ actions') = s.log actions ++ t.log actions' := by
  induction actions generalizing s with
  | nil =>
    obtain rfl : s = t := by simpa using h
    rfl
  | cons action actions ih =>
    obtain ⟨u, hstep, hrun⟩ := run?_cons_eq_some.1 h
    rw [List.cons_append, log_cons hstep, log_cons hstep, ih hrun, List.append_assoc]

theorem mem_trail_self (s : Session) (actions : List Action) : s ∈ s.trail actions := by
  cases actions with
  | nil => exact List.mem_singleton_self s
  | cons action actions =>
    rw [trail]
    split
    · exact List.mem_singleton_self s
    · exact List.mem_cons_self

/-- Frames are only sent by writing. -/
theorem write_of_sent_mem {outcome : Except Error Unit}
    (h : (u, .sent o outcome) ∈ s.transfers action) : u = s ∧ action = .write outcome := by
  have hreceived : ∀ action', (u, Transfer.sent o outcome) ∉
      (s.handouts action').map fun p => (p.1, .received p.2) := by
    intro action' hmem
    obtain ⟨p, -, heq⟩ := List.mem_map.1 hmem
    cases heq
  cases action with
  | write outcome' =>
    rw [transfers] at h
    split at h
    · obtain ⟨rfl, heq⟩ := Prod.mk.inj (List.mem_singleton.1 h)
      obtain ⟨-, rfl⟩ := Transfer.sent.inj heq
      exact ⟨rfl, rfl⟩
    · exact absurd h List.not_mem_nil
  | _ => exact absurd h (hreceived _)

/-- Whatever is received is handed out. -/
theorem received_mem_log {p : Session × Frame} :
    (p.1, .received p.2) ∈ s.log actions ↔ p ∈ s.history actions := by
  induction actions generalizing s with
  | nil => exact iff_of_false List.not_mem_nil List.not_mem_nil
  | cons action actions ih =>
    rcases hstep : s.step? action with _ | t
    · rw [history, hstep, log, hstep]
      exact iff_of_false List.not_mem_nil List.not_mem_nil
    · have hnow : (p.1, .received p.2) ∈ s.transfers action ↔ p ∈ s.handouts action := by
        cases action with
        | write outcome =>
          refine iff_of_false ?_ List.not_mem_nil
          intro hmem
          rw [transfers] at hmem
          split at hmem
          · cases List.mem_singleton.1 hmem
          · exact absurd hmem List.not_mem_nil
        | _ =>
          refine List.mem_map.trans ⟨?_, fun hmem => ⟨p, hmem, rfl⟩⟩
          rintro ⟨p', hmem, heq⟩
          obtain ⟨hsession, hframe⟩ := Prod.mk.inj heq
          rwa [← Prod.ext hsession (Transfer.received.inj hframe)]
      rw [history_cons hstep, log_cons hstep, List.mem_append, List.mem_append, hnow, ih]

/-! ### Questions and answers -/

/-- The frames that were sent and taken. -/
def questions (log : List (Session × Transfer)) : List (Session × Outgoing) :=
  log.filterMap fun
    | (s, .sent frame (.ok ())) => some (s, frame)
    | _ => none

/-- Whether a received frame is a response that somebody could wait for. -/
def isAnswer (uses : Identity → Bool) (s : Session) (f : Frame) : Bool :=
  !f.id.isEvent && uses f.id && (s.settings.catalogue.decode f).toOption.isSome

/-- The responses that were received, as far as somebody could wait for them. -/
def answers (uses : Identity → Bool) (log : List (Session × Transfer)) : List (Session × Frame) :=
  log.filterMap fun
    | (s, .received f) => if isAnswer uses s f then some (s, f) else none
    | _ => none

/-- The questions that have not been answered, if they are answered one after another. -/
def unanswered (uses : Identity → Bool) (log : List (Session × Transfer)) :
    List (Session × Outgoing) :=
  (questions log).drop (answers uses log).length

/-- At every moment the answers so far answer the first of the questions so far. -/
def Orderly (uses : Identity → Bool) (log : List (Session × Transfer)) : Prop :=
  ∀ past ∈ log.inits, (answers uses past).map (fun a => some a.2.id) <+:
    (questions past).map (·.2.identity?)

instance (uses : Identity → Bool) (log : List (Session × Transfer)) :
    Decidable (Orderly uses log) :=
  inferInstanceAs (Decidable (∀ past ∈ log.inits, _))

/-- Whether a call awaits responses with an identity, or did so. -/
def inUse (s : Session) (id : Identity) : Bool :=
  s.calls.any fun call => call.request.awaited?.any (·.responseId = id)

theorem questions_append (past later : List (Session × Transfer)) :
    questions (past ++ later) = questions past ++ questions later := List.filterMap_append

theorem answers_append (past later : List (Session × Transfer)) :
    answers uses (past ++ later) = answers uses past ++ answers uses later := List.filterMap_append

theorem questions_sent (o : Outgoing) :
    questions (past ++ [(u, .sent o (.ok ()))]) = questions past ++ [(u, o)] := by
  rw [questions_append]
  rfl

theorem questions_refused (o : Outgoing) (e : Error) :
    questions (past ++ [(u, .sent o (.error e))]) = questions past := by
  rw [questions_append]
  exact List.append_nil _

theorem questions_received (f : Frame) :
    questions (past ++ [(u, .received f)]) = questions past := by
  rw [questions_append]
  exact List.append_nil _

theorem answers_sent (o : Outgoing) (outcome : Except Error Unit) :
    answers uses (past ++ [(u, .sent o outcome)]) = answers uses past := by
  rw [answers_append]
  exact List.append_nil _

theorem answers_ignored (hnot : isAnswer uses u f = false) :
    answers uses (past ++ [(u, .received f)]) = answers uses past := by
  rw [answers_append]
  simp [answers, hnot]

theorem answers_received (hanswer : isAnswer uses u f = true) :
    answers uses (past ++ [(u, .received f)]) = answers uses past ++ [(u, f)] := by
  rw [answers_append]
  simp [answers, hanswer]

theorem mem_answers {a : Session × Frame} :
    a ∈ answers uses past ↔
      (a.1, .received a.2) ∈ past ∧ isAnswer uses a.1 a.2 = true := by
  unfold answers
  rw [List.mem_filterMap]
  constructor
  · rintro ⟨⟨u, transfer⟩, hmem, heq⟩
    cases transfer with
    | sent o outcome => cases heq
    | received f =>
      obtain ⟨hanswer, heq⟩ := Option.ite_none_right_eq_some.1 heq
      obtain rfl := Option.some.inj heq
      exact ⟨hmem, hanswer⟩
  · rintro ⟨hmem, hanswer⟩
    exact ⟨_, hmem, if_pos hanswer⟩

namespace Orderly

theorem of_append (h : Orderly uses (past ++ later)) : Orderly uses past := by
  intro before hbefore
  refine h before ((List.mem_inits _ _).2 ?_)
  exact ((List.mem_inits _ _).1 hbefore).trans (List.prefix_append _ _)

theorem length_le (h : Orderly uses past) :
    (answers uses past).length ≤ (questions past).length := by
  have hle := (h past ((List.mem_inits _ _).2 (List.prefix_refl _))).length_le
  rwa [List.length_map, List.length_map] at hle

/-- A frame that is sent and taken is one more question. -/
theorem sent (h : Orderly uses past) (o : Outgoing) :
    unanswered uses (past ++ [(u, .sent o (.ok ()))]) = unanswered uses past ++ [(u, o)] := by
  rw [unanswered, unanswered, questions_sent, answers_sent,
    List.drop_append_of_le_length h.length_le]

/-- An answer answers the first question that has not been answered. -/
theorem answer (h : Orderly uses (past ++ [(u, .received f)]))
    (hanswer : isAnswer uses u f = true) :
    ∃ q, (questions past)[(answers uses past).length]? = some q ∧ q.2.identity? = some f.id ∧
      unanswered uses past = q :: unanswered uses (past ++ [(u, .received f)]) := by
  have hall := h _ ((List.mem_inits _ _).2 (List.prefix_refl _))
  rw [questions_received, answers_received hanswer, List.map_append, List.map_singleton] at hall
  have hlt : (answers uses past).length < (questions past).length := by
    have hle := hall.length_le
    simp only [List.length_append, List.length_map, List.length_singleton] at hle
    omega
  have hget := List.getElem?_eq_getElem hlt
  refine ⟨(questions past)[(answers uses past).length], hget, ?_, ?_⟩
  · obtain ⟨rest, heq⟩ := hall
    have hid := congrArg (·[(answers uses past).length]?) heq
    simp only [List.append_assoc, List.singleton_append, List.getElem?_map, hget] at hid
    rw [List.getElem?_append_right (by rw [List.length_map])] at hid
    simpa using hid.symm
  · rw [unanswered, unanswered, questions_received, answers_received hanswer, List.length_append,
      List.length_singleton]
    exact List.drop_eq_getElem_cons hlt

end Orderly

/-- A frame that is refused is no question. -/
theorem unanswered_refused (o : Outgoing) (e : Error) :
    unanswered uses (past ++ [(u, .sent o (.error e))]) = unanswered uses past := by
  rw [unanswered, unanswered, questions_refused, answers_sent]

/-- A received frame that nobody could wait for answers nothing. -/
theorem unanswered_ignored (hnot : isAnswer uses u f = false) :
    unanswered uses (past ++ [(u, .received f)]) = unanswered uses past := by
  rw [unanswered, unanswered, questions_received, answers_ignored hnot]

end Session

end BleHost
