import BleHost.Proofs.Session.Closed
import BleHost.Proofs.Session.Correlation

/-!
# How the pump ends

The pump ends when the link fails for good, when it has been told to stop, or when the session is
taken down because nobody needs it any more (`Cause`). Whichever it is, what has been reported until
then stands, the frames that are left are reported as dead, and those who wait for a response are
told of the failure, or that the session is dead (`Ending`). That fixes the fate of every call that
is not over by then (`fate`), whatever it waits for.
-/

namespace BleHost

/-- When nobody breaks off the telling, everybody is told. -/
theorem Lifecycle.reached_eq {listeners : List LifecycleListener}
    (h : ∀ l ∈ listeners, l.panics = false) : reached listeners = listeners := by
  induction listeners with
  | nil => rfl
  | cons l listeners ih =>
    rw [reached, h l List.mem_cons_self, ih fun l' hl' => h l' (List.mem_cons_of_mem _ hl')]
    rfl

/-- A read after which the pump gives up has completed no frame. -/
theorem Pump.frames_eq_nil {p : Pump} {allowed : Nat} {outcome : ReadOutcome} {cause : String}
    (h : (p.read allowed outcome).2.2 = .giveUp cause) : (p.read allowed outcome).2.1 = [] := by
  cases outcome with
  | idle => rfl
  | received bytes =>
    cases bytes with
    | nil => rfl
    | cons byte bytes => cases h
  | failed e =>
    unfold Pump.read at h ⊢
    dsimp only at h ⊢
    split
    · rfl
    · rfl

namespace Session

variable {i j : Nat} {s t u : Session} {call : Call} {hs : List (Session × Frame)}
  {action : Action} {actions : List Action} {result : Except Error Outcome} {e : Error}

/-! ### Fates -/

/-- The verdict on what the link does in an action. -/
def verdict? (s : Session) : Action → Option Verdict
  | .write outcome => some (s.pump.wrote s.settings.maxFailures outcome).2
  | .read outcome => some (s.pump.read s.settings.maxFailures outcome).2.2
  | _ => none

/-- What an action reports of the first queued frame. -/
def written (s : Session) : Action → List (Nat × Except Error Unit)
  | .write outcome => s.outbound.queued.head?.toList.map fun frame => (frame.ticket, outcome)
  | _ => []

/-- What has been reported of a frame once an action has ended the pump, before the rest of the
queue is thrown out. -/
def reported? (s : Session) (action : Action) (ticket : Nat) : Option (Except Error Unit) :=
  ((s.receipts ++ s.written action).find? (·.1 == ticket)).map (·.2)

/-- What becomes of a call that waits for a response: it is the one that has come, or the error that
all others are told. -/
def lastAnswer (s : Session) (e : Error) (request : Request) (waiter : Nat) :
    Except Error Outcome :=
  match s.reply? waiter with
  | some (.ok m) => request.conclude m
  | _ => .error e

/-- What becomes of a call that has queued a frame. -/
def lastReport (s : Session) (action : Action) (e : Error) (request : Request) (ticket : Nat)
    (waiter : Option Nat) : Except Error Outcome :=
  match s.reported? action ticket with
  | none => .error .dead
  | some (.error e') => .error e'
  | some (.ok ()) =>
    match waiter with
    | some waiter => s.lastAnswer e request waiter
    | none => .ok request.onceWritten

/-- What becomes of a call that is not over when an action ends the pump. -/
def fate (s : Session) (action : Action) (e : Error) (call : Call) : Except Error Outcome :=
  match call.stage with
  | .forWrite ticket waiter => s.lastReport action e call.request ticket waiter
  | .held ticket waiter => s.lastReport action e call.request ticket (some waiter)
  | .forReply waiter => s.lastAnswer e call.request waiter
  | .forPump => .ok .finished
  | .inLine | .forSlot _ _ | .ended _ _ | .dropped => .error .dead

/-! ### Ends of the pump -/

/-- Why an action ends the pump, and the error that is told to those who wait for a response. -/
inductive Cause (s : Session) (action : Action) (t : Session) : Error → Prop
  /-- The link has failed for good, and every listener has been told the cause. -/
  | lost (cause : String) (hverdict : s.verdict? action = some (.giveUp cause))
    (hrun : s.cancelled = false) (hcalls : t.calls = s.calls)
    (htold : t.lifecycle.told =
      s.lifecycle.told ++ s.lifecycle.listeners.map fun l => (l.id, .linkLost cause)) :
    Cause s action t (.linkLost cause)
  /-- The pump has been told to stop. -/
  | halted (haction : action = .halt) (hcancel : s.cancelled = true) (hcalls : t.calls = s.calls)
    (htold : t.lifecycle.told = s.lifecycle.told) : Cause s action t .dead
  /-- Nobody needs the session any more. -/
  | takenDown (hdown : t.takenDown = true) (htold : t.lifecycle.told = s.lifecycle.told) :
    Cause s action t .dead

/-- What an action leaves behind that ends the pump. -/
structure Ending (s : Session) (action : Action) (t : Session) (e : Error) : Prop where
  cause : Cause s action t e
  silent : t.outstanding.closed = true
  receipts : ∃ rest, t.receipts = s.receipts ++ s.written action ++ rest ∧
    ∀ r ∈ rest, r.2 = .error .dead
  replies : ∃ rest, t.replies = s.replies ++ rest ∧ ∀ r ∈ rest, r.2 = .error e

theorem lastReplies_eq {o : Outstanding} {e : Error} :
    ∀ r ∈ lastReplies o e, r.2 = .error e := by
  intro r hr
  obtain ⟨w, -, rfl⟩ := List.mem_map.1 hr
  rfl

theorem lastReceipts_eq {q : Outbound} : ∀ r ∈ lastReceipts q, r.2 = .error .dead := by
  intro r hr
  obtain ⟨o, -, rfl⟩ := List.mem_map.1 hr
  rfl

theorem breaksOff_eq_false (h : ∀ l ∈ s.lifecycle.listeners, l.panics = false) :
    s.lifecycle.breaksOff = false := by
  have hnone : (s.lifecycle.listeners.any fun l => l.panics) = false := by
    rw [List.any_eq_false]
    intro l hl
    simp [h l hl]
  rw [Lifecycle.breaksOff, hnone, Bool.and_false]

/-- The link has failed for good. -/
theorem exists_ending_giveUp (hlife : s.LifeSound) (hrun : s.IsRunning)
    (hquiet : ∀ l ∈ s.lifecycle.listeners, l.panics = false) {w : Session} {cause : String}
    (hverdict : s.verdict? action = some (.giveUp cause)) (hcalls : w.calls = s.calls)
    (hlifecycle : w.lifecycle = s.lifecycle)
    (hreceipts : w.receipts = s.receipts ++ s.written action) (hreplies : w.replies = s.replies) :
    Ending s action (w.giveUp cause) (.linkLost cause) := by
  have hlive := (hlife.open_of_isRunning hrun).1
  have hb : w.lifecycle.breaksOff = false := by rw [hlifecycle, breaksOff_eq_false hquiet]
  obtain ⟨ready, heq, -⟩ := closeOutstanding_conclude_eq
    { w with lifecycle := w.lifecycle.terminate (.linkLost cause) } (.linkLost cause)
  unfold giveUp
  dsimp only
  rw [if_neg (by rw [hb]; exact Bool.false_ne_true), heq]
  refine ⟨.lost cause hverdict hrun.1 hcalls ?_, rfl, ?_, ?_⟩
  · show (w.lifecycle.terminate (.linkLost cause)).told = _
    rw [hlifecycle, Lifecycle.terminate, hlive, Lifecycle.reached_eq hquiet]
    rfl
  · exact ⟨_, by rw [hreceipts], lastReceipts_eq⟩
  · exact ⟨_, by rw [hreplies], lastReplies_eq⟩

theorem exists_ending_write (hlife : s.LifeSound)
    (hquiet : ∀ l ∈ s.lifecycle.listeners, l.panics = false)
    {outcome : Except Error Unit} (hstep : s.step? (.write outcome) = some t)
    (hover : t.pumpState.isOver = true) : ∃ e, Ending s (.write outcome) t e := by
  simp only [step?] at hstep
  split at hstep
  · rename_i frame hwant
    obtain ⟨hrun, frames, hqueued⟩ := isRunning_of_write hwant
    obtain ⟨r, hgrant, -⟩ := regrant_eq
      { s with pump := (s.pump.wrote s.settings.maxFailures outcome).1 } s.outbound.pop
    obtain ⟨ready, heq, -⟩ := note_eq (Session.regrant
      { s with pump := (s.pump.wrote s.settings.maxFailures outcome).1 } s.outbound.pop)
        frame.ticket outcome
    have ht : t = (Session.note (Session.regrant
        { s with pump := (s.pump.wrote s.settings.maxFailures outcome).1 } s.outbound.pop)
          frame.ticket outcome).obey (s.pump.wrote s.settings.maxFailures outcome).2 :=
      (Option.some.inj hstep).symm
    rw [hgrant] at heq
    rw [hgrant, heq] at ht
    rw [ht] at hover ⊢
    cases hverdict : (s.pump.wrote s.settings.maxFailures outcome).2 with
    | goOn =>
      rw [hverdict] at hover
      cases hover
    | rest =>
      rw [hverdict] at hover
      cases hover
    | giveUp cause =>
      refine ⟨_, exists_ending_giveUp hlife hrun hquiet ?_ rfl rfl ?_ rfl⟩
      · rw [verdict?, hverdict]
      · rw [written, hqueued]
        rfl
  · cases hstep

theorem exists_ending_read (hlife : s.LifeSound)
    (hquiet : ∀ l ∈ s.lifecycle.listeners, l.panics = false)
    {outcome : ReadOutcome} (hstep : s.step? (.read outcome) = some t)
    (hover : t.pumpState.isOver = true) : ∃ e, Ending s (.read outcome) t e := by
  simp only [step?] at hstep
  split at hstep
  · rename_i hwant
    have hrun := isRunning_of_read hwant
    have ht : t = ((s.pump.read s.settings.maxFailures outcome).2.1.foldl route
        { s with pump := (s.pump.read s.settings.maxFailures outcome).1 }).obey
          (s.pump.read s.settings.maxFailures outcome).2.2 :=
      (Option.some.inj hstep).symm
    cases hverdict : (s.pump.read s.settings.maxFailures outcome).2.2 with
    | goOn =>
      rw [ht, hverdict] at hover
      cases hover
    | rest =>
      rw [ht, hverdict] at hover
      cases hover
    | giveUp cause =>
      rw [hverdict, Pump.frames_eq_nil hverdict] at ht
      rw [ht]
      refine ⟨_, exists_ending_giveUp hlife hrun hquiet ?_ rfl rfl ?_ rfl⟩
      · rw [verdict?, hverdict]
      · exact (List.append_nil _).symm
  · cases hstep

theorem exists_ending_halt (hstep : s.step? .halt = some t) : Ending s .halt t .dead := by
  simp only [step?] at hstep
  split at hstep
  · rename_i hwant
    obtain ⟨ready, heq, -⟩ := closeOutstanding_conclude_eq s .dead
    rw [← Option.some.inj hstep, halt, heq]
    refine ⟨.halted rfl (cancelled_of_stop hwant).1 rfl rfl, rfl, ?_, ?_⟩
    · exact ⟨lastReceipts s.outbound, by simp [written], lastReceipts_eq⟩
    · exact ⟨_, rfl, lastReplies_eq⟩
  · cases hstep

/-! ### When a caller ends the pump -/

/-- What a caller's moves do: the pump ends only when the session is taken down, and nothing is
reported but that the session is dead. -/
structure ByCaller (s t : Session) : Prop where
  length_le : s.calls.length ≤ t.calls.length
  told : t.lifecycle.told = s.lifecycle.told
  down : s.takenDown = true → t.takenDown = true
  silent : s.outstanding.closed = true → t.outstanding.closed = true
  stopped : t.pumpState.isOver = true →
    s.pumpState.isOver = true ∨ t.takenDown = true ∧ t.outstanding.closed = true
  receipts : ∃ rest, t.receipts = s.receipts ++ rest ∧ ∀ r ∈ rest, r.2 = .error .dead
  replies : ∃ rest, t.replies = s.replies ++ rest ∧ ∀ r ∈ rest, r.2 = .error .dead

namespace ByCaller

theorem refl (s : Session) : ByCaller s s :=
  ⟨Nat.le_refl _, rfl, id, id, .inl, ⟨[], by simp⟩, ⟨[], by simp⟩⟩

theorem append_trans {α β : Type} {l l' l'' : List (α × β)} {b : β}
    (h : ∃ rest, l' = l ++ rest ∧ ∀ r ∈ rest, r.2 = b)
    (h' : ∃ rest, l'' = l' ++ rest ∧ ∀ r ∈ rest, r.2 = b) :
    ∃ rest, l'' = l ++ rest ∧ ∀ r ∈ rest, r.2 = b := by
  obtain ⟨rest, rfl, hrest⟩ := h
  obtain ⟨rest', rfl, hrest'⟩ := h'
  refine ⟨rest ++ rest', List.append_assoc _ _ _, ?_⟩
  intro r hr
  exact (List.mem_append.1 hr).elim (hrest r) (hrest' r)

theorem trans (h : ByCaller s t) (h' : ByCaller t u) : ByCaller s u where
  length_le := Nat.le_trans h.length_le h'.length_le
  told := h'.told.trans h.told
  down := fun hs => h'.down (h.down hs)
  silent := fun hs => h'.silent (h.silent hs)
  stopped := by
    intro hu
    rcases h'.stopped hu with ht | hdown
    · exact (h.stopped ht).imp_right fun ⟨hdown, hsilent⟩ => ⟨h'.down hdown, h'.silent hsilent⟩
    · exact .inr hdown
  receipts := append_trans h.receipts h'.receipts
  replies := append_trans h.replies h'.replies

theorem of_move (hmove : Move i s t) (hi : i ≤ s.calls.length) : ByCaller s t := by
  have hsame := refl s
  have hlength : ∀ f : Call → Call, s.calls.length ≤ (s.calls.modify i f).length :=
    fun f => Nat.le_of_eq (by rw [List.length_modify])
  cases hmove with
  | enter request deadline he =>
    exact { hsame with length_le := by simp }
  | queue hcall hstage hturn hlive hclaims hopen hroom hready =>
    exact { hsame with
      length_le := hlength _, silent := fun hs => hclaims.closed.trans hs, stopped := .inl }
  | block hcall hstage hturn hlive hclaims hopen hroom =>
    exact { hsame with
      length_le := hlength _, silent := fun hs => hclaims.closed.trans hs, stopped := .inl }
  | refuse bytes hcall hstage hturn hlive hclaims hclosed =>
    exact { hsame with
      length_le := hlength _, silent := fun hs => hclaims.closed.trans hs, stopped := .inl }
  | retry hcall hstage hopen hgranted hready => exact { hsame with length_le := hlength _ }
  | expect hcall hstage hreceipt hreply => exact { hsame with length_le := hlength _ }
  | await hcall hstage => exact { hsame with length_le := hlength _ }
  | waitForPump hcall hstage hrequest hrun => exact { hsame with length_le := hlength _ }
  | finish hcall hgoing hover hready =>
    exact { hsame with
      length_le := hlength _
      silent := fun hs => (closed_withoutWaiter ..).trans hs
      stopped := .inl }
  | takeDown hreleased hfirst hneed => exact { hsame with down := fun _ => rfl, stopped := .inl }
  | hush hstopped hready =>
    exact { hsame with
      silent := fun _ => rfl, stopped := .inl, replies := ⟨_, rfl, lastReplies_eq⟩ }
  | cutOff hdown hsilent hneed hready =>
    exact { hsame with
      stopped := fun _ => .inr ⟨hdown, hsilent⟩, receipts := ⟨_, rfl, lastReceipts_eq⟩ }
  | wrote outcome hpump hrun hqueued hready => omega
  | goOn hpump hrun hnew => omega
  | conclude hpump hrun hstops hready => omega
  | breakOff hpump hrun hb hready => omega
  | _ => exact { hsame with }

theorem of_moves (hmoves : Moves i hs s t) (hnil : hs = []) (hi : i ≤ s.calls.length) :
    ByCaller s t := by
  induction hmoves with
  | refl s => exact refl s
  | move hmove hrest ih =>
    have h := of_move hmove hi
    exact h.trans (ih hnil (Nat.le_trans hi h.length_le))
  | route hrun hrest ih => cases hnil

end ByCaller

/-! ### Ends of the pump, whoever brings them about -/

/-- An action that ends the pump does so for one of the three causes. -/
theorem exists_ending (hs : s.Reachable) (hquiet : ∀ l ∈ s.lifecycle.listeners, l.panics = false)
    (hstep : s.step? action = some t) (hrun : s.pumpState.isOver = false)
    (hover : t.pumpState.isOver = true) : ∃ e, Ending s action t e := by
  have hlife := LifeSound.of_reachable hs
  have hsame : t.pumpState = s.pumpState → ∃ e, Ending s action t e := by
    intro heq
    rw [heq, hrun] at hover
    cases hover
  have hcaller : ∀ i, i ≤ s.calls.length → s.IsActor i action → s.handouts action = [] →
      s.written action = [] → ∃ e, Ending s action t e := by
    intro i hi hactor hnil hwritten
    have hmoves := ByCaller.of_moves (moves_of_isActor hactor hstep) hnil hi
    rcases hmoves.stopped hover with hover' | ⟨hdown, hsilent⟩
    · rw [show s.pumpState.isOver = true from hover'] at hrun
      cases hrun
    · refine ⟨.dead, .takenDown hdown hmoves.told, hsilent, ?_, hmoves.replies⟩
      rw [hwritten, List.append_nil]
      exact hmoves.receipts
  -- a caller at a place without a call does nothing
  have hnobody : ∀ {index : Nat}, ¬ index ≤ s.calls.length → s.stage? index = none := by
    intro index hlt
    rw [stage?, List.getElem?_eq_none (by omega), Option.map_none]
  cases action with
  | halt => exact ⟨_, exists_ending_halt hstep⟩
  | write outcome => exact exists_ending_write hlife hquiet hstep hover
  | read outcome => exact exists_ending_read hlife hquiet hstep hover
  | call request => exact hcaller _ (Nat.le_refl _) rfl rfl rfl
  | turn index =>
    by_cases hlt : index ≤ s.calls.length
    · exact hcaller index hlt rfl rfl rfl
    · refine hsame ?_
      have hnone : s.calls[index]? = none := Option.map_eq_none_iff.1 (hnobody hlt)
      rw [← Option.some.inj hstep, turn, show _ = none from hnone]
  | await index limit =>
    by_cases hlt : index ≤ s.calls.length
    · exact hcaller index hlt rfl rfl rfl
    · refine hsame ?_
      rw [← Option.some.inj hstep, await, hnobody hlt]
  | abandon index =>
    by_cases hlt : index ≤ s.calls.length
    · exact hcaller index hlt rfl rfl rfl
    · refine hsame ?_
      rw [← Option.some.inj hstep, abandon, hnobody hlt]
  | _ => exact hcaller 0 (Nat.zero_le _) trivial rfl rfl

/-! ### What the waiters were told before -/

/-- As long as the pump is there, waiters are only refused because it has been told to stop. -/
def RefusalsSound (s : Session) : Prop :=
  ∀ (w : Nat) (e : Error), (w, .error e) ∈ s.replies →
    s.pumpState.isOver = true ∨ s.cancelled = true ∧ e = .dead

namespace RefusalsSound

theorem move (h : s.RefusalsSound) (hmove : Move i s t) : t.RefusalsSound := by
  cases hmove with
  | stop => exact fun w e hmem => (h w e hmem).imp_right fun ⟨_, he⟩ => ⟨rfl, he⟩
  | takeDown hreleased hfirst hneed =>
    exact fun w e hmem => (h w e hmem).imp_right fun ⟨_, he⟩ => ⟨rfl, he⟩
  | hush hstopped hready =>
    intro w e hmem
    rcases List.mem_append.1 hmem with hmem | hmem
    · exact h w e hmem
    · have he := lastReplies_eq _ hmem
      exact hstopped.symm.imp_right fun hcancel => ⟨hcancel, Except.error.inj he⟩
  | cutOff hdown hsilent hneed hready => exact fun _ _ _ => .inl rfl
  | goOn hpump hrun hnew =>
    intro w e hmem
    rcases h w e hmem with hover | ⟨hcancel, -⟩
    · rw [hrun.2] at hover
      cases hover
    · rw [hrun.1] at hcancel
      cases hcancel
  | conclude hpump hrun hstops hready => exact fun _ _ _ => .inl rfl
  | breakOff hpump hrun hb hready => exact fun _ _ _ => .inl rfl
  | _ => exact h

theorem route (h : s.RefusalsSound) (frame : Frame) : (s.route frame).RefusalsSound := by
  obtain ⟨outstanding, news, hub, ready, heq, -, hok, -⟩ := route_eq s frame
  rw [heq]
  intro w e hmem
  rcases List.mem_append.1 hmem with hmem | hmem
  · exact h w e hmem
  · obtain ⟨m, he⟩ := hok _ hmem
    cases he

theorem moves (h : s.RefusalsSound) (hmoves : Moves i hs s t) : t.RefusalsSound := by
  induction hmoves with
  | refl s => exact h
  | move hmove hrest ih => exact ih (h.move hmove)
  | route hrun hrest ih => exact ih (h.route _)

theorem of_reachable (h : s.Reachable) : s.RefusalsSound := by
  refine h.induction ?_ (fun _ _ h => h) fun _ _ _ _ h => h.moves
  intro settings s hset w e hmem
  obtain rfl := eq_of_ofSettings hset
  exact absurd hmem List.not_mem_nil

end RefusalsSound

/-! ### Every call comes to its fate -/

/-- What a list of records says of a key, it said before more was added, or it is what was added. -/
theorem lookup_append {α : Type} {l rest : List (Nat × α)} {key : Nat} {a b : α}
    (hrest : ∀ r ∈ rest, r.2 = b) (h : ((l ++ rest).find? (·.1 == key)).map (·.2) = some a) :
    (l.find? (·.1 == key)).map (·.2) = some a ∨
      (l.find? (·.1 == key)).map (·.2) = none ∧ a = b := by
  rw [List.find?_append] at h
  rcases hl : l.find? (·.1 == key) with _ | r
  · rw [hl, Option.none_or] at h
    obtain ⟨r, hr, rfl⟩ := Option.map_eq_some_iff.1 h
    exact .inr ⟨by rw [hl, Option.map_none], hrest r (List.mem_of_find?_eq_some hr)⟩
  · rw [hl, Option.some_or] at h
    exact .inl (by rw [hl, h])

namespace Ending

/-- Nobody was refused before for another reason. -/
theorem eq_of_refused (h : Ending s action t e) (hs : s.Reachable)
    (hrun : s.pumpState.isOver = false) {w : Nat} {e' : Error} (hmem : (w, .error e') ∈ s.replies) :
    e' = e := by
  rcases RefusalsSound.of_reachable hs w e' hmem with hover | ⟨hcancel, rfl⟩
  · rw [hrun] at hover
    cases hover
  · cases h.cause with
    | lost cause hverdict hlive hcalls htold =>
      rw [hlive] at hcancel
      cases hcancel
    | halted haction hcancel hcalls htold => rfl
    | takenDown hdown htold => rfl

theorem answer (h : Ending s action t e) (hs : s.Reachable) (hrun : s.pumpState.isOver = false)
    {request : Request} {waiter : Nat} (hresult : t.answer? request waiter = some result) :
    result = s.lastAnswer e request waiter := by
  obtain ⟨rest, hreplies, hrest⟩ := h.replies
  obtain ⟨reply, hreply, rfl⟩ := Option.map_eq_some_iff.1 hresult
  rw [reply?, hreplies] at hreply
  rcases lookup_append hrest hreply with hreply | ⟨hnone, rfl⟩
  · rw [lastAnswer, show s.reply? waiter = some reply from hreply]
    cases reply with
    | ok m => rfl
    | error e' => rw [h.eq_of_refused hs hrun (mem_of_lookup hreply)]
  · rw [lastAnswer, show s.reply? waiter = none from hnone]

theorem report (h : Ending s action t e) (hs : s.Reachable) (hrun : s.pumpState.isOver = false)
    {request : Request} {ticket : Nat} {waiter : Option Nat}
    (hresult : t.report? request ticket waiter = some result) :
    result = s.lastReport action e request ticket waiter := by
  obtain ⟨rest, hreceipts, hrest⟩ := h.receipts
  unfold report? at hresult
  rcases hreceipt : t.receipt? ticket with _ | outcome
  · rw [hreceipt] at hresult
    cases hresult
  · rw [hreceipt] at hresult
    rw [receipt?, hreceipts] at hreceipt
    rcases lookup_append hrest hreceipt with hreported | ⟨hnone, rfl⟩
    · unfold lastReport
      rw [show s.reported? action ticket = some outcome from hreported]
      cases outcome with
      | error e' => exact (Option.some.inj hresult).symm
      | ok written =>
        cases waiter with
        | none => exact (Option.some.inj hresult).symm
        | some waiter => exact h.answer hs hrun hresult
    · unfold lastReport
      rw [show s.reported? action ticket = none from hnone]
      exact (Option.some.inj hresult).symm

/-- What is settled about a call after the end of the pump is its fate. -/
theorem eq_fate (h : Ending s action t e) (hs : s.Reachable) (hrun : s.pumpState.isOver = false)
    (hresult : t.outcome? call = some result) : result = s.fate action e call := by
  unfold outcome? at hresult
  unfold fate
  cases hstage : call.stage with
  | inLine =>
    rw [hstage] at hresult
    dsimp only at hresult
    split at hresult
    · exact (Option.some.inj hresult).symm
    · cases hresult
  | forSlot bytes waiter =>
    rw [hstage] at hresult
    dsimp only at hresult
    split at hresult
    · exact (Option.some.inj hresult).symm
    · cases hresult
  | forWrite ticket waiter =>
    rw [hstage] at hresult
    exact h.report hs hrun hresult
  | held ticket waiter =>
    rw [hstage] at hresult
    exact h.report hs hrun hresult
  | forReply waiter =>
    rw [hstage] at hresult
    exact h.answer hs hrun hresult
  | forPump =>
    rw [hstage] at hresult
    dsimp only at hresult
    split at hresult
    · exact (Option.some.inj hresult).symm
    · cases hresult
  | _ =>
    rw [hstage] at hresult
    cases hresult

end Ending

end Session

end BleHost
