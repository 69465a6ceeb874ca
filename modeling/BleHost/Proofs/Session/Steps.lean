import BleHost.Proofs.Session.Moves
import Mathlib.Tactic.ByContra

/-!
# Every action is made of moves

What each part of a turn and of a round comes to in moves, and from that what every action does
(`moves_of_step?`): the pump keeps its count and its bytes, then come the moves.
-/

namespace BleHost

namespace Session

variable {i : Nat} {s t : Session} {call : Call} {hs : List (Session × Frame)}

/-! ### Stages -/

theorem setStage_self (hcall : s.calls[i]? = some call) : s.setStage i call.stage = s := by
  have hcalls : s.calls.modify i (·.atStage call.stage) = s.calls := by
    apply List.ext_getElem?
    intro j
    rw [List.getElem?_modify]
    by_cases hij : i = j
    · subst hij
      simp [hcall, Call.atStage]
    · simp [hij]
  rw [setStage_eq, hcalls]

theorem getElem?_setStage (hcall : s.calls[i]? = some call) (stage : Stage) :
    (s.setStage i stage).calls[i]? = some (call.atStage stage) := by
  simp [setStage_eq, hcall]

theorem stage?_eq (hcall : s.calls[i]? = some call) : s.stage? i = some call.stage := by
  simp [stage?, hcall]

/-! ### Ends of calls -/

theorem moves_wake (i : Nat) (s : Session) (party : Party) : Moves i [] s (s.wake party) := by
  obtain ⟨ready, heq, -, hsub⟩ := wake_eq s party
  rw [heq]
  exact .single (.rouse s.alarms hsub (List.Subset.refl _))

/-- Whoever sets an alarm takes none from the others. -/
theorem alarms_subset_setAlarm (s : Session) (party : Party) :
    s.alarms ⊆ s.alarms.erase party ++ [party] := by
  intro other hother
  by_cases he : other = party
  · exact List.mem_append_right _ (List.mem_singleton.2 he)
  · exact List.mem_append_left _ ((List.mem_erase_of_ne he).2 hother)

theorem moves_setAlarm (i : Nat) (s : Session) (party : Party) :
    Moves i [] s (s.setAlarm party) :=
  .single (.rouse _ (List.Subset.refl _) (s.alarms_subset_setAlarm party))

theorem moves_closeHub (i : Nat) (s : Session)
    (h : s.cancelled = true ∨ s.pumpState.isOver = true)
    (hwho : s.takenDown = true ∨ ∃ call : Call, s.calls[i]? = some call ∧
      (call.request = .shutdown ∨ call.stage = .forPump)) :
    Moves i [] s (s.closeOutstanding .dead).closeHub := by
  obtain ⟨ready, heq, hready⟩ := closeOutstanding_eq s .dead
  rw [heq]
  exact .single (.hush h hready hwho)

theorem moves_takeDownIfUnused (i : Nat) (s : Session) : Moves i [] s s.takeDownIfUnused := by
  unfold takeDownIfUnused
  split
  · rename_i h
    simp only [Bool.and_eq_true, Bool.not_eq_true', List.isEmpty_iff] at h
    obtain ⟨⟨hreleased, hfirst⟩, hneed⟩ := h
    have hneed' : ∀ (j : Nat) (call : Call), s.calls[j]? = some call →
        call.needsSession = false := by
      intro j call hcall
      by_contra hneeds
      have hmem := mem_callsWhere.2 ⟨call, hcall, eq_true_of_ne_false hneeds⟩
      simp [hneed] at hmem
    have hdown := (Moves.single (.takeDown (i := i) hreleased hfirst hneed')).trans
      (moves_closeHub i _ (.inl rfl) (.inl rfl))
    obtain ⟨ready, heq, hready⟩ := closeOutstanding_eq
      { s with takenDown := true, cancelled := true, lifecycle := s.lifecycle.stop.2 } .dead
    dsimp only
    split
    · exact hdown.trans (moves_wake i _ _)
    · split
      · exact hdown
      · rename_i hopen
        refine hdown.trans ?_
        rw [heq] at hopen ⊢
        obtain ⟨ready', heq', hready'⟩ := cutOff_eq (closeHub
          { s with
            takenDown := true
            cancelled := true
            lifecycle := s.lifecycle.stop.2
            outstanding := s.outstanding.close
            replies := s.replies ++ lastReplies s.outstanding .dead
            ready })
        rw [heq']
        exact .single (.cutOff rfl rfl hneed' hready' hopen)
  · exact .refl s

/-- Ending a call at any stage before the last. -/
theorem moves_over (hcall : s.calls[i]? = some call) (hgoing : call.stage.isOver = false)
    {stage : Stage}
    (hover : stage = .dropped ∨ ∃ result, stage = .ended s.now result ∧ s.Ends call result) :
    Moves i [] s ((s.relinquish i call.stage).setStage i stage).takeDownIfUnused := by
  obtain ⟨ready, heq, hready⟩ := relinquish_eq s i call.stage
  rw [heq, setStage_eq]
  exact .move (.finish hcall hgoing hover hready) (moves_takeDownIfUnused i _)

theorem moves_finish (hcall : s.calls[i]? = some call) (hgoing : call.stage.isOver = false)
    {result : Except Error Outcome} (hends : s.Ends call result) :
    Moves i [] s (s.finish i result) := by
  simp only [finish, stage?_eq hcall]
  exact moves_over hcall hgoing (.inr ⟨result, rfl, hends⟩)

/-! ### Steps of a call -/

theorem answer?_eq_none {request : Request} {waiter : Nat} :
    s.answer? request waiter = none ↔ s.reply? waiter = none := by
  simp [answer?]

theorem awaitReply_of_answer {request : Request} {waiter : Nat} {result : Except Error Outcome}
    (h : s.answer? request waiter = some result) :
    s.awaitReply i request waiter = s.finish i result := by
  unfold awaitReply
  unfold answer? at h
  rcases hreply : s.reply? waiter with _ | ⟨e | m⟩ <;> simp_all

theorem awaitReply_of_none {request : Request} {waiter : Nat} (h : s.reply? waiter = none) :
    s.awaitReply i request waiter = s.setStage i (.forReply waiter) := by
  simp [awaitReply, h]

/-- A frame that has been dealt with in full. -/
theorem awaitWrite_of_report {request : Request} {ticket : Nat} {waiter : Option Nat}
    {result : Except Error Outcome} (h : s.report? request ticket waiter = some result) :
    s.awaitWrite i request ticket waiter = s.finish i result := by
  unfold awaitWrite
  unfold report? at h
  rcases hreceipt : s.receipt? ticket with _ | ⟨e | ⟨⟩⟩
  · simp [hreceipt] at h
  · simp only [hreceipt, Option.some.injEq] at h ⊢
    rw [h]
  · simp only [hreceipt] at h ⊢
    cases waiter with
    | none =>
      obtain rfl := Option.some.inj h
      cases request <;> rfl
    | some waiter => exact awaitReply_of_answer h

/-- A frame whose response is still to come, or that is still to be dealt with. -/
theorem awaitWrite_of_none {request : Request} {ticket : Nat} {waiter : Option Nat}
    (h : s.report? request ticket waiter = none) :
    s.receipt? ticket = none ∧
        s.awaitWrite i request ticket waiter = s.setStage i (.forWrite ticket waiter) ∨
      ∃ w, waiter = some w ∧ s.receipt? ticket = some (.ok ()) ∧ s.reply? w = none ∧
        s.awaitWrite i request ticket waiter = s.setStage i (.forReply w) := by
  unfold report? at h
  rcases hreceipt : s.receipt? ticket with _ | ⟨e | ⟨⟩⟩
  · exact .inl ⟨rfl, by simp [awaitWrite, hreceipt]⟩
  · simp [hreceipt] at h
  · simp only [hreceipt] at h
    cases waiter with
    | none => cases h
    | some w =>
      have hreply := answer?_eq_none.1 h
      exact .inr ⟨w, rfl, rfl, hreply, by simp [awaitWrite, hreceipt, awaitReply_of_none hreply]⟩

theorem moves_awaitReply {waiter : Nat} (hcall : s.calls[i]? = some call)
    (hstage : call.stage = .forReply waiter) :
    Moves i [] s (s.awaitReply i call.request waiter) := by
  rcases h : s.answer? call.request waiter with _ | result
  · rw [awaitReply_of_none (answer?_eq_none.1 h), ← hstage, setStage_self hcall]
    exact .refl s
  · rw [awaitReply_of_answer h]
    exact moves_finish hcall (by simp [hstage, Stage.isOver])
      (.settled (by simp [outcome?, hstage, h]))

theorem moves_awaitWrite {ticket : Nat} {waiter : Option Nat} (hcall : s.calls[i]? = some call)
    (hstage : call.stage = .forWrite ticket waiter) :
    Moves i [] s (s.awaitWrite i call.request ticket waiter) := by
  rcases h : s.report? call.request ticket waiter with _ | result
  · rcases awaitWrite_of_none (i := i) h with ⟨-, heq⟩ | ⟨w, rfl, hreceipt, hreply, heq⟩
    · rw [heq, ← hstage, setStage_self hcall]
      exact .refl s
    · rw [heq, setStage_eq]
      exact .single (.expect hcall hstage hreceipt hreply)
  · rw [awaitWrite_of_report h]
    exact moves_finish hcall (by simp [hstage, Stage.isOver])
      (.settled (by simp [outcome?, hstage, h]))

/-- A refused frame ends its call. -/
theorem moves_refused {bytes : List UInt8} {waiter : Option Nat} (hcall : s.calls[i]? = some call)
    (hstage : call.stage = .forSlot bytes waiter) (hclosed : s.outbound.closed = true) :
    Moves i [] s (s.finish i (.error .dead)) := by
  refine moves_finish hcall (by simp [hstage, Stage.isOver]) (.settled ?_)
  simp [outcome?, hstage, hclosed]

theorem admitted_queued (s : Session) (request : Request) (bytes : List UInt8)
    (waiter : Option Nat) (ticket : Nat) :
    s.admitted i request bytes waiter (.queued ticket) =
      ((s.wake .pump).setStage i (.queued request ticket waiter)).takeDownIfUnused := by
  cases request <;> cases waiter <;> rfl

/-- Offering the frame of a call whose turn it is. -/
theorem moves_submit {bytes : List UInt8} {waiter : Option Nat} {outstanding : Outstanding}
    (hcall : s.calls[i]? = some call) (hstage : call.stage = .inLine)
    (hturn : call.request.exclusive?.isSome = true → s.line.head? = some i)
    (hlive : s.lifecycle.dead = false) (hclaims : s.Claims call.request bytes outstanding waiter) :
    Moves i [] s ({ s with outstanding }.submit i call.request bytes waiter) := by
  unfold submit Outbound.offer
  dsimp only
  split
  · rename_i hclosed
    refine .move (.refuse bytes hcall hstage hturn hlive hclaims hclosed) ?_
    have hrefused : (s.calls.modify i (·.atStage (.forSlot bytes waiter)))[i]? =
        some (call.atStage (.forSlot bytes waiter)) := by simp [hcall]
    exact moves_refused hrefused rfl hclosed
  · rename_i hopen
    split
    · rename_i hroom
      rw [admitted_queued]
      obtain ⟨ready, heq, -, hsub⟩ := wake_eq
        { s with outstanding, outbound := s.outbound.push bytes } .pump
      rw [heq, setStage_eq]
      exact .move (.queue hcall hstage hturn hlive hclaims (by simpa using hopen) hroom hsub)
        (moves_takeDownIfUnused i _)
    · rename_i hroom
      simp only [admitted, setStage_eq]
      exact .single (.block hcall hstage hturn hlive hclaims (by simpa using hopen)
        (by simpa using hroom))

theorem moves_beginExchange (command : Command) (hcall : s.calls[i]? = some call)
    (hstage : call.stage = .inLine) (hcommand : call.request.awaited? = some command)
    (hturn : call.request.exclusive?.isSome = true → s.line.head? = some i) :
    Moves i [] s (s.beginExchange i call.request command) := by
  have hgoing : call.stage.isOver = false := by simp [hstage, Stage.isOver]
  unfold beginExchange
  split
  · rename_i hdead
    exact moves_finish hcall hgoing (.settled (by simp [outcome?, hstage, hdead]))
  · rename_i hlive
    split
    · rename_i hr
      have hclosed : s.outstanding.closed = true := by
        by_contra hopen
        simp [Outstanding.register, hopen] at hr
      exact moves_finish hcall hgoing (.settled (by simp [outcome?, hstage, hclosed]))
    · rename_i waiter outstanding hr
      exact moves_submit hcall hstage hturn (by simpa using hlive) (.waiter hcommand hr)

theorem moves_queueOnly (command : Command) (hcall : s.calls[i]? = some call)
    (hstage : call.stage = .inLine) (hnone : call.request.awaited? = none)
    (hsends : call.request ≠ .shutdown) (hframe : call.request.frame? = some command.bytes)
    (hturn : call.request.exclusive?.isSome = true → s.line.head? = some i) :
    Moves i [] s (s.queueOnly i call.request command) := by
  unfold queueOnly
  split
  · rename_i hdead
    exact moves_finish hcall (by simp [hstage, Stage.isOver])
      (.settled (by simp [outcome?, hstage, hdead]))
  · rename_i hlive
    exact moves_submit hcall hstage hturn (by simpa using hlive) (.nothing hnone hsends hframe)

/-- A caller who has waited for the pump, or need not, leaves with everything closed. -/
theorem moves_closeHub_finish (hcall : s.calls[i]? = some call)
    (hstopped : s.cancelled = true ∨ s.pumpState.isOver = true)
    (hends : call.request = .shutdown ∧ call.stage = .inLine ∨
      call.stage = .forPump ∧ s.pumpState.isOver = true) :
    Moves i [] s ((s.closeOutstanding .dead).closeHub.finish i (.ok .finished)) := by
  refine (moves_closeHub i s hstopped (.inr ⟨call, hcall, ?_⟩)).trans ?_
  · exact hends.imp And.left And.left
  obtain ⟨ready, heq, -⟩ := closeOutstanding_eq s .dead
  generalize ht : (s.closeOutstanding .dead).closeHub = t
  have hcall' : t.calls[i]? = some call := by rw [← ht, heq]; exact hcall
  have hpump : t.pumpState = s.pumpState := by rw [← ht, heq]; rfl
  rcases hends with ⟨hrequest, hstage⟩ | ⟨hstage, hover⟩
  · exact moves_finish hcall' (by simp [hstage, Stage.isOver]) (.stopped hrequest hstage)
  · refine moves_finish hcall' (by simp [hstage, Stage.isOver]) (.settled ?_)
    simp [outcome?, hstage, hpump, hover]

theorem moves_awaitPump (hcall : s.calls[i]? = some call)
    (hstage : call.request = .shutdown ∧ call.stage = .inLine ∨ call.stage = .forPump) :
    Moves i [] s (s.awaitPump i) := by
  have hend : s.pumpState.isOver = true →
      Moves i [] s ((s.closeOutstanding .dead).closeHub.finish i (.ok .finished)) :=
    fun hover => moves_closeHub_finish hcall (.inr hover) (hstage.imp_right fun h => ⟨h, hover⟩)
  have hwait : s.pumpState.isOver = false → Moves i [] s (s.setStage i .forPump) := by
    intro hrun
    rcases hstage with ⟨hrequest, hstage⟩ | hstage
    · rw [setStage_eq]
      exact .single (.waitForPump hcall hstage hrequest hrun)
    · rw [← hstage, setStage_self hcall]
      exact .refl s
  unfold awaitPump
  split
  · rename_i hclosed
    exact hend (by rw [hclosed]; rfl)
  · rename_i hcut
    exact hend (by rw [hcut]; rfl)
  · rename_i hclosed hcut
    refine hwait ?_
    cases hp : s.pumpState with
    | closed => exact absurd hp hclosed
    | cutOff => exact absurd hp hcut
    | running => rfl
    | resting wakeAt => rfl

theorem moves_beginShutdown (hcall : s.calls[i]? = some call) (hstage : call.stage = .inLine)
    (hrequest : call.request = .shutdown) : Moves i [] s (s.beginShutdown i) := by
  obtain ⟨ready, heq, -, hsub⟩ :=
    wake_eq { s with lifecycle := s.lifecycle.stop.2, cancelled := true } .pump
  unfold beginShutdown
  dsimp only
  rw [heq]
  refine .move (.stop hcall hrequest) (.move (.rouse s.alarms hsub (List.Subset.refl _)) ?_)
  split
  · exact .move (.join rfl) (moves_awaitPump hcall (.inl ⟨hrequest, hstage⟩))
  · exact moves_closeHub_finish hcall (.inl rfl) (.inl ⟨hrequest, hstage⟩)

/-! ### Turns -/

/-- A caller that was blocked tries again. -/
theorem moves_retry {bytes : List UInt8} {waiter : Option Nat} (hcall : s.calls[i]? = some call)
    (hstage : call.stage = .forSlot bytes waiter) : Moves i [] s (s.advance i call) := by
  have hself : s.setStage i (.forSlot bytes waiter) = s := by rw [← hstage, setStage_self hcall]
  simp only [advance, hstage, Outbound.retry]
  split
  · rename_i hclosed
    simp only [admitted, hself]
    exact moves_refused hcall hstage hclosed
  · rename_i hopen
    split
    · rename_i hgranted
      rw [admitted_queued]
      obtain ⟨ready, heq, -, hsub⟩ := wake_eq
        { s with
          outbound := { s.outbound with granted := s.outbound.granted.erase i }.push bytes } .pump
      rw [heq, setStage_eq]
      exact .move (.retry hcall hstage (by simpa using hopen) (by simpa using hgranted) hsub)
        (moves_takeDownIfUnused i _)
    · simp only [admitted, hself]
      exact .refl s

theorem moves_advance (hcall : s.calls[i]? = some call) : Moves i [] s (s.advance i call) := by
  cases hstage : call.stage with
  | inLine =>
    simp only [advance, hstage]
    rcases hexclusive : call.request.exclusive? with _ | command
    · exact .refl s
    · by_cases hhead : s.line.head? = some i
      · have hawaited : call.request.awaited? = some command := by
          rw [← hexclusive]
          cases hrequest : call.request <;> simp_all [Request.exclusive?, Request.awaited?]
        simp only [hhead, if_true]
        exact moves_beginExchange command hcall hstage hawaited fun _ => hhead
      · simp only [hhead, if_false]
        exact .refl s
  | forSlot bytes waiter => exact moves_retry hcall hstage
  | forWrite ticket waiter =>
    simp only [advance, hstage]
    exact moves_awaitWrite hcall hstage
  | forReply waiter =>
    simp only [advance, hstage]
    exact moves_awaitReply hcall hstage
  | forPump =>
    simp only [advance, hstage]
    exact moves_awaitPump hcall (.inr hstage)
  | held ticket waiter =>
    simp only [advance, hstage]
    exact .refl s
  | ended time result =>
    simp only [advance, hstage]
    exact .refl s
  | dropped =>
    simp only [advance, hstage]
    exact .refl s

/-- A call whose time is over ends for that reason, unless it has just gone on. -/
theorem moves_finish_overdue (hlate : s.isOverdue i = true) :
    Moves i [] s (s.finish i (.error .timeout)) := by
  unfold isOverdue at hlate
  split at hlate
  · rename_i call hcall
    simp only [Bool.and_eq_true] at hlate
    obtain ⟨htimed, hlate⟩ := hlate
    have hgoing : call.stage.isOver = false := by
      cases hstage : call.stage <;> simp_all [Stage.isTimed, Stage.isOver]
    exact moves_finish hcall hgoing (.late hlate)
  · cases hlate

theorem moves_turn (i : Nat) (s : Session) : Moves i [] s (s.turn i) := by
  unfold turn
  split
  · exact .refl s
  · rename_i call hcall
    dsimp only
    split
    · rename_i hlate
      exact (moves_advance hcall).trans (moves_finish_overdue hlate)
    · exact moves_advance hcall

/-! ### What callers do -/

/-- A call comes in, and its caller sets an alarm. -/
theorem moves_entered (request : Request) (deadline : Option Nat) {line : List Nat}
    (hkept : s.released = false)
    (hlimit : (request.limit? s.settings.commandTimeout).map (s.now + ·) = deadline)
    (hline : (if request.exclusive?.isSome then s.line ++ [s.calls.length] else s.line) = line)
    (h : Moves s.calls.length []
      ({ s with calls := s.calls ++ [(⟨request, deadline, .inLine⟩ : Call)], line }.setAlarm
        (.caller s.calls.length)) t) :
    Moves s.calls.length [] s t := by
  subst hline
  exact .move (.enter request deadline rfl hkept hlimit.symm)
    (.move (.rouse _ (List.Subset.refl _) (alarms_subset_setAlarm s _)) h)

/-- The first turn of a call that does not stand in line. -/
theorem moves_begin (hcall : s.calls[i]? = some call) (hstage : call.stage = .inLine)
    (hfree : call.request.exclusive? = none) : Moves i [] s (s.begin i call.request) := by
  have hturn : call.request.exclusive?.isSome = true → s.line.head? = some i := by simp [hfree]
  cases hrequest : call.request with
  | send command =>
    have hmoves := moves_queueOnly command hcall hstage (by rw [hrequest]; rfl)
      (by rw [hrequest]; exact nofun) (by rw [hrequest]; rfl) hturn
    rwa [hrequest] at hmoves
  | initiate command =>
    have hmoves := moves_beginExchange command hcall hstage (by rw [hrequest]; rfl)
      hturn
    rwa [hrequest] at hmoves
  | reset bootInDfu =>
    have hmoves := moves_queueOnly (Instruction.systemReset bootInDfu).fixed hcall
      hstage (by rw [hrequest]; rfl) (by rw [hrequest]; exact nofun) (by rw [hrequest]; rfl) hturn
    rwa [hrequest] at hmoves
  | shutdown => exact moves_beginShutdown hcall hstage hrequest
  | exchange command limit => simp [hrequest, Request.exclusive?] at hfree
  | ask query => simp [hrequest, Request.exclusive?] at hfree

/-- A call is made, and takes its first turn. -/
theorem moves_call (hkept : s.released = false) (request : Request) :
    Moves s.calls.length [] s (s.call request) := by
  unfold call
  dsimp only
  generalize hlimit : (request.limit? s.settings.commandTimeout).map (s.now + ·) = deadline
  rcases hexclusive : request.exclusive? with _ | command
  · refine moves_entered request deadline hkept hlimit (by rw [hexclusive]; rfl : _ = s.line) ?_
    have hcall : (s.calls ++ [(⟨request, deadline, .inLine⟩ : Call)])[s.calls.length]? =
        some ⟨request, deadline, .inLine⟩ := by simp
    generalize hs : ({ s with
      calls := s.calls ++ [(⟨request, deadline, .inLine⟩ : Call)] }.setAlarm
        (.caller s.calls.length)) = entered
    have hcall' : entered.calls[s.calls.length]? = some ⟨request, deadline, .inLine⟩ := by
      rw [← hs]
      exact hcall
    exact moves_begin hcall' rfl hexclusive
  · cases request with
    | exchange command limit =>
      exact moves_entered (.exchange command limit) deadline hkept hlimit rfl (moves_turn _ _)
    | ask query => exact moves_entered (.ask query) deadline hkept hlimit rfl (moves_turn _ _)
    | send command => cases hexclusive
    | initiate command => cases hexclusive
    | reset bootInDfu => cases hexclusive
    | shutdown => cases hexclusive

theorem moves_await (i : Nat) (s : Session) (limit : Option Nat) :
    Moves i [] s (s.await i limit) := by
  unfold await
  split
  · rename_i ticket waiter hstage
    obtain ⟨call, hcall, hstage⟩ := Option.map_eq_some_iff.1 hstage
    exact .move (.await hcall hstage)
      (.move (.rouse _ (List.Subset.refl _) (alarms_subset_setAlarm s _)) (moves_turn i _))
  · exact .refl s

theorem moves_abandon (i : Nat) (s : Session) : Moves i [] s (s.abandon i) := by
  unfold abandon
  split
  · exact .refl s
  · exact .refl s
  · exact .refl s
  · rename_i stage hended hdropped hstage
    obtain ⟨call, hcall, rfl⟩ := Option.map_eq_some_iff.1 hstage
    refine moves_over hcall ?_ (.inl rfl)
    cases hs : call.stage <;> simp_all [Stage.isOver]

theorem moves_release (i : Nat) (s : Session) : Moves i [] s s.release :=
  .move .release (moves_takeDownIfUnused i _)

/-! ### Rounds of the pump -/

/-- A pump that wants something has not stopped. -/
theorem not_isOver_of_want (h : s.want ≠ .nothing) : s.pumpState.isOver = false := by
  unfold want at h
  cases hp : s.pumpState with
  | running => rfl
  | resting wakeAt => rfl
  | closed => simp [hp] at h
  | cutOff => simp [hp] at h

/-- What the pump wants once it is at work again. -/
theorem want_eq (h : s.want ≠ .nothing) :
    s.want = if s.cancelled then .stop
      else match s.outbound.queued with
        | frame :: _ => .write frame
        | [] => .read := by
  unfold want at h ⊢
  dsimp only at h ⊢
  split at h
  · exact absurd rfl h
  · exact absurd rfl h
  · split at h
    · exact absurd rfl h
    · rename_i hp hdue
      exact if_neg hdue
  · rfl

theorem isRunning_of_write {frame : Outgoing} (h : s.want = .write frame) :
    s.IsRunning ∧ ∃ frames, s.outbound.queued = frame :: frames := by
  have hsome : s.want ≠ .nothing := by simp [h]
  have hwant := want_eq hsome
  rw [h] at hwant
  split at hwant
  · cases hwant
  · rename_i hcancel
    refine ⟨⟨by simpa using hcancel, not_isOver_of_want hsome⟩, ?_⟩
    split at hwant
    · rename_i first frames hqueued
      obtain rfl := Want.write.inj hwant
      exact ⟨frames, hqueued⟩
    · cases hwant

theorem isRunning_of_read (h : s.want = .read) : s.IsRunning := by
  have hsome : s.want ≠ .nothing := by simp [h]
  have hwant := want_eq hsome
  rw [h] at hwant
  split at hwant
  · cases hwant
  · rename_i hcancel
    exact ⟨by simpa using hcancel, not_isOver_of_want hsome⟩

theorem cancelled_of_stop (h : s.want = .stop) :
    s.cancelled = true ∧ s.pumpState.isOver = false := by
  have hsome : s.want ≠ .nothing := by simp [h]
  have hwant := want_eq hsome
  rw [h] at hwant
  split at hwant
  · rename_i hcancel
    exact ⟨hcancel, not_isOver_of_want hsome⟩
  · split at hwant <;> cases hwant

/-- The waiters are told, then the pump stops. -/
theorem closeOutstanding_conclude_eq (s : Session) (e : Error) :
    ∃ ready, (s.closeOutstanding e).conclude =
        { s with
          outstanding := s.outstanding.close
          replies := s.replies ++ lastReplies s.outstanding e
          pumpState := .closed
          outbound := s.outbound.close
          receipts := s.receipts ++ lastReceipts s.outbound
          hub := s.hub.close
          ready } ∧
      s.Rouses ready fun index stage =>
        (∃ w ∈ s.outstanding.waiters, stage = .forReply w.id) ∨ WaitsAt s.outbound index stage ∨
          stage = .forPump := by
  obtain ⟨r, hclose, hr⟩ := closeOutstanding_eq s e
  obtain ⟨ready, heq, hrs⟩ := conclude_eq (s.closeOutstanding e)
  rw [hclose] at heq hrs
  exact ⟨ready, by rw [hclose]; exact heq, hr.trans hrs rfl rfl⟩

/-- The pump is cut off, and those who wait for it learn of that. -/
theorem cutOff_wakeWhere_eq (s : Session) :
    ∃ ready, (s.cutOff.wakeWhere fun
        | .forPump => true
        | _ => false) =
        { s with
          pumpState := .cutOff
          outbound := s.outbound.close
          receipts := s.receipts ++ lastReceipts s.outbound
          ready } ∧
      s.Rouses ready fun index stage => WaitsAt s.outbound index stage ∨ stage = .forPump := by
  obtain ⟨r, hcut, hr⟩ := cutOff_eq s
  obtain ⟨ready, heq, hrs⟩ := wakeWhere_eq s.cutOff fun
    | .forPump => true
    | _ => false
  rw [hcut] at heq hrs
  have hrs' := hr.trans hrs rfl rfl
  refine ⟨ready, by rw [hcut]; exact heq, hrs'.subset, ?_⟩
  rintro index call hcall (hwaits | hstage)
  · exact hrs'.mem index call hcall (.inl hwaits)
  · exact hrs'.mem index call hcall (.inr (by simp [hstage]))

theorem moves_halt (hpump : s.calls.length < i) (hcancel : s.cancelled = true)
    (hrun : s.pumpState.isOver = false) : Moves i [] s s.halt := by
  obtain ⟨ready, heq, hready⟩ := closeOutstanding_conclude_eq s .dead
  rw [halt, heq]
  exact .single (.conclude hpump hrun (.halted hcancel) hready)

theorem moves_giveUp (hpump : s.calls.length < i) (hrun : s.IsRunning) (cause : String) :
    Moves i [] s (s.giveUp cause) := by
  unfold giveUp
  dsimp only
  split
  · rename_i hb
    obtain ⟨ready, heq, hready⟩ :=
      cutOff_wakeWhere_eq { s with lifecycle := s.lifecycle.terminate (.linkLost cause) }
    refine Eq.mpr (congrArg (Moves i [] s) heq) ?_
    exact .single (.breakOff hpump hrun hb ⟨hready.subset, hready.mem⟩)
  · rename_i hb
    obtain ⟨ready, heq, hready⟩ := closeOutstanding_conclude_eq
      { s with lifecycle := s.lifecycle.terminate (.linkLost cause) } (.linkLost cause)
    rw [heq]
    exact .single (.conclude hpump hrun.2 (.lost cause hrun.1 (by simpa using hb))
      ⟨hready.subset, hready.mem⟩)

theorem moves_obey (hpump : s.calls.length < i) (hrun : s.IsRunning) (verdict : Verdict) :
    Moves i [] s (s.obey verdict) := by
  cases verdict with
  | goOn => exact .single (.goOn hpump hrun rfl)
  | rest => exact .move (.goOn hpump hrun rfl) (moves_setAlarm i _ .pump)
  | giveUp cause => exact moves_giveUp hpump hrun cause

/-- A frame is taken from the queue, and its caller learns what became of it. -/
theorem moves_wrote (hpump : s.calls.length < i) {frame : Outgoing} {frames : List Outgoing}
    (hrun : s.IsRunning) (hqueued : s.outbound.queued = frame :: frames)
    (outcome : Except Error Unit) (verdict : Verdict) :
    Moves i [] s (((s.regrant s.outbound.pop).note frame.ticket outcome).obey verdict) := by
  obtain ⟨r, hgrant, hr⟩ := regrant_eq s s.outbound.pop
  obtain ⟨ready, heq, hrs⟩ := note_eq (s.regrant s.outbound.pop) frame.ticket outcome
  rw [hgrant] at heq hrs
  rw [hgrant, heq]
  refine .move (.wrote outcome hpump hrun hqueued (hr.trans hrs rfl rfl)) ?_
  refine moves_obey ?_ ?_ verdict
  · exact hpump
  · exact hrun

/-! ### Handing out frames -/

theorem IsRunning.route (hrun : s.IsRunning) (frame : Frame) : (s.route frame).IsRunning := by
  obtain ⟨outstanding, news, hub, ready, heq, -⟩ := route_eq s frame
  rw [heq]
  exact hrun

/-- Handing out a frame leaves all calls where they are. -/
@[simp] theorem calls_route (s : Session) (frame : Frame) : (s.route frame).calls = s.calls := by
  obtain ⟨outstanding, news, hub, ready, heq, -⟩ := route_eq s frame
  rw [heq]

theorem moves_handOut (i : Nat) (hrun : s.IsRunning) (frames : List Frame) :
    Moves i (s.handOut frames) s (frames.foldl route s) ∧ (frames.foldl route s).IsRunning ∧
      (frames.foldl route s).calls = s.calls := by
  induction frames generalizing s with
  | nil => exact ⟨.refl s, hrun, rfl⟩
  | cons frame frames ih =>
    obtain ⟨hmoves, hrun', hcalls⟩ := ih (hrun.route frame)
    exact ⟨.route hrun hmoves, hrun', hcalls.trans (calls_route s frame)⟩

/-- The frames that have been read are handed out before the pump goes on. -/
theorem moves_read (hpump : s.calls.length < i) (hrun : s.IsRunning) (frames : List Frame)
    (verdict : Verdict) : Moves i (s.handOut frames) s ((frames.foldl route s).obey verdict) := by
  obtain ⟨hmoves, hrun', hcalls⟩ := moves_handOut i hrun frames
  have hall := hmoves.trans (moves_obey (by rw [hcalls]; exact hpump) hrun' verdict)
  rwa [List.append_nil] at hall

/-! ### Actions -/

/-- The pump as an action leaves it, before anything else happens. -/
def pumpAfter (s : Session) : Action → Pump
  | .write outcome => (s.pump.wrote s.settings.maxFailures outcome).1
  | .read outcome => (s.pump.read s.settings.maxFailures outcome).1
  | _ => s.pump

/-- Whether a place is that of the call that an action may bring to another stage, for what a caller
does, or is beyond all places of calls, for what the pump does. -/
def IsActor (s : Session) (i : Nat) : Action → Prop
  | .await index _ | .abandon index | .turn index => i = index
  | .call _ => i = s.calls.length
  | .halt | .write _ | .read _ => s.calls.length < i
  | .release | .pause | .pass _ | .listen _ | .use _ => True

/-- Such a place. -/
def actor (s : Session) : Action → Nat
  | .await index _ | .abandon index | .turn index => index
  | .call _ => s.calls.length
  | _ => s.calls.length + 1

theorem isActor_actor (s : Session) (action : Action) : s.IsActor (s.actor action) action := by
  cases action with
  | halt => exact Nat.lt_succ_self s.calls.length
  | write outcome => exact Nat.lt_succ_self s.calls.length
  | read outcome => exact Nat.lt_succ_self s.calls.length
  | await index limit => rfl
  | abandon index => rfl
  | turn index => rfl
  | call request => rfl
  | _ => trivial

/-- Whether an action is taken by the caller of the call at a place. -/
def IsOwn (s : Session) (j : Nat) : Action → Prop
  | .await index _ | .abandon index | .turn index => index = j
  | .call _ => s.calls.length = j
  | _ => False

/-- An action that is not a caller's own can be taken to concern another place than his. -/
theorem exists_isActor_ne {j : Nat} {action : Action} (h : ¬ s.IsOwn j action) :
    ∃ i, i ≠ j ∧ s.IsActor i action := by
  have hfar : max j s.calls.length + 1 ≠ j ∧ s.calls.length < max j s.calls.length + 1 := by omega
  cases action with
  | call request => exact ⟨s.calls.length, h, rfl⟩
  | await index limit => exact ⟨index, h, rfl⟩
  | abandon index => exact ⟨index, h, rfl⟩
  | turn index => exact ⟨index, h, rfl⟩
  | halt => exact ⟨_, hfar⟩
  | write outcome => exact ⟨_, hfar⟩
  | read outcome => exact ⟨_, hfar⟩
  | _ => exact ⟨_, hfar.1, trivial⟩

theorem foldl_wake_eq (s : Session) (parties : List Party) :
    ∃ ready, parties.foldl wake s = { s with ready } ∧ s.ready ⊆ ready ∧ parties ⊆ ready := by
  induction parties generalizing s with
  | nil => exact ⟨s.ready, rfl, List.Subset.refl _, List.nil_subset _⟩
  | cons party parties ih =>
    obtain ⟨r, hwake, hmem, hsub⟩ := wake_eq s party
    obtain ⟨ready, heq, hsub', hparties⟩ := ih (s.wake party)
    rw [hwake] at heq hsub'
    exact ⟨ready, by rw [List.foldl_cons, hwake, heq], List.Subset.trans hsub hsub',
      List.cons_subset.2 ⟨hsub' hmem, hparties⟩⟩

theorem moves_setClock (i : Nat) {time : Nat} (h : s.now ≤ time) :
    Moves i [] s (s.setClock time) := by
  obtain ⟨ready, heq, hsub, hdue⟩ :=
    foldl_wake_eq { s with now := time } (s.alarms.filter (s.isDue time))
  rw [setClock, heq]
  exact .single <| .tick h hsub fun party hparty hmoment =>
    hdue (List.mem_filter.2 ⟨hparty, hmoment⟩)

/-- Every action is made of moves: the pump keeps its count and its bytes, and the rest follows. -/
theorem moves_of_isActor {action : Action} (hi : s.IsActor i action)
    (h : s.step? action = some t) :
    Moves i (s.handouts action) { s with pump := s.pumpAfter action } t := by
  cases action with
  | call request =>
    obtain rfl : i = s.calls.length := hi
    simp only [step?] at h
    split at h
    · cases h
    · rename_i hkept
      rw [← Option.some.inj h]
      exact moves_call (eq_false_of_ne_true hkept) request
  | await index limit =>
    obtain rfl : i = index := hi
    rw [← Option.some.inj h]
    exact moves_await i s limit
  | abandon index =>
    obtain rfl : i = index := hi
    rw [← Option.some.inj h]
    exact moves_abandon i s
  | release =>
    rw [← Option.some.inj h]
    exact moves_release i s
  | turn index =>
    obtain rfl : i = index := hi
    rw [← Option.some.inj h]
    exact .move (.begin (.inr rfl)) (moves_turn i _)
  | halt =>
    simp only [step?] at h
    split at h
    · rename_i hwant
      rw [← Option.some.inj h]
      obtain ⟨hcancel, hrun⟩ := cancelled_of_stop hwant
      exact moves_halt hi hcancel hrun
    · cases h
  | write outcome =>
    simp only [step?] at h
    split at h
    · rename_i frame hwant
      rw [← Option.some.inj h]
      obtain ⟨hrun, frames, hqueued⟩ := isRunning_of_write hwant
      exact moves_wrote (s := { s with pump := s.pumpAfter (.write outcome) }) hi hrun hqueued
        outcome (s.pump.wrote s.settings.maxFailures outcome).2
    · cases h
  | read outcome =>
    simp only [step?] at h
    split at h
    · rename_i hwant
      rw [← Option.some.inj h]
      exact moves_read (s := { s with pump := s.pumpAfter (.read outcome) }) hi
        (isRunning_of_read hwant) _ (s.pump.read s.settings.maxFailures outcome).2.2
    · cases h
  | pause =>
    rw [← Option.some.inj h]
    exact .single (.begin (.inl rfl))
  | pass ms =>
    rw [← Option.some.inj h]
    exact moves_setClock i (Nat.le_add_right s.now ms)
  | listen listener =>
    simp only [step?] at h
    split at h
    · cases h
    · rw [← Option.some.inj h]
      exact .single .listen
  | use use =>
    rw [← Option.some.inj h]
    exact .single .use

theorem moves_of_step? {action : Action} (h : s.step? action = some t) :
    Moves (s.actor action) (s.handouts action) { s with pump := s.pumpAfter action } t :=
  moves_of_isActor (s.isActor_actor action) h

theorem Move.settings_eq (h : Move i s t) : t.settings = s.settings := by
  cases h <;> rfl

theorem Moves.settings_eq (h : Moves i hs s t) : t.settings = s.settings := by
  induction h with
  | refl s => rfl
  | move hmove hrest ih => exact ih.trans hmove.settings_eq
  | @route hs s u frame hrun hrest ih =>
    obtain ⟨outstanding, news, hub, ready, heq, -⟩ := route_eq s frame
    exact ih.trans (by rw [heq])

theorem settings_eq_of_run? {actions : List Action} (h : s.run? actions = some t) :
    t.settings = s.settings := by
  refine run?_induction (P := fun u => u.settings = s.settings) ?_ h rfl
  intro u action v hu hstep
  exact (moves_of_step? hstep).settings_eq.trans hu

/-- What holds at first, does not depend on the pump's count and bytes, and is kept by moves, holds
of every session. -/
theorem Reachable.induction {P : Session → Prop}
    (hinit : ∀ settings s, ofSettings settings = .ok s → P s)
    (hpump : ∀ s pump, P s → P { s with pump })
    (hmoves : ∀ i hs s t, P s → Moves i hs s t → P t) (h : s.Reachable) : P s := by
  obtain ⟨settings, s₀, actions, h₀, hrun⟩ := h
  refine run?_induction ?_ hrun (hinit settings s₀ h₀)
  intro u action t hu hstep
  exact hmoves _ _ _ _ (hpump u _ hu) (moves_of_step? hstep)

end Session

end BleHost
