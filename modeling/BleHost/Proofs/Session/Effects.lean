import BleHost.Session.Clock

/-!
# What the parts of a turn do

Giving reasons to take a turn changes nothing but who has one, so that each of the small changes
that turns are made of comes down to a change of a few fields and more reasons. The equations here
say which fields, and for each of them which callers have a reason afterwards (`Rouses`).
-/

namespace BleHost

/-- A call at another stage. -/
def Call.atStage (c : Call) (stage : Stage) : Call := { c with stage }

@[simp] theorem Call.stage_atStage (c : Call) (stage : Stage) : (c.atStage stage).stage = stage :=
  rfl

@[simp] theorem Call.request_atStage (c : Call) (stage : Stage) :
    (c.atStage stage).request = c.request := rfl

@[simp] theorem Outstanding.closed_offer (o : Outstanding) (id : Identity) (m : Message) :
    (o.offer id m).2.closed = o.closed := by
  unfold offer
  dsimp only
  split <;> rfl

namespace Session

/-- A list of reasons holds all that a session has, and those of the callers who are at certain
stages. -/
structure Rouses (s : Session) (ready : List Party) (p : Nat → Stage → Prop) : Prop where
  subset : s.ready ⊆ ready
  mem : ∀ index call, s.calls[index]? = some call → p index call.stage → .caller index ∈ ready

variable {s t : Session} {ready ready' : List Party} {p q : Nat → Stage → Prop}

theorem Rouses.imp (h : s.Rouses ready p) (hq : ∀ index stage, q index stage → p index stage) :
    s.Rouses ready q :=
  ⟨h.subset, fun index call hcall hstage => h.mem index call hcall (hq _ _ hstage)⟩

/-- One after the other. -/
theorem Rouses.trans (h : s.Rouses ready p) (h' : t.Rouses ready' q) (hready : t.ready = ready)
    (hcalls : t.calls = s.calls) :
    s.Rouses ready' fun index stage => p index stage ∨ q index stage where
  subset := List.Subset.trans h.subset (hready ▸ h'.subset)
  mem := by
    rintro index call hcall (hp | hq)
    · exact h'.subset (hready ▸ h.mem index call hcall hp)
    · exact h'.mem index call (hcalls ▸ hcall) hq

/-! ### Reasons -/

theorem wake_eq (s : Session) (party : Party) :
    ∃ ready, s.wake party = { s with ready } ∧ party ∈ ready ∧ s.ready ⊆ ready := by
  unfold wake
  split
  · rename_i h
    exact ⟨s.ready, rfl, by simpa using h, List.Subset.refl _⟩
  · exact ⟨s.ready ++ [party], rfl, by simp, List.subset_append_left _ _⟩

theorem wakeAll_eq (s : Session) (indices : List Nat) :
    ∃ ready, s.wakeAll indices = { s with ready } ∧
      s.Rouses ready fun index _ => index ∈ indices := by
  induction indices generalizing s with
  | nil => exact ⟨s.ready, rfl, List.Subset.refl _, by simp⟩
  | cons i indices ih =>
    obtain ⟨r, hwake, hi, hsub⟩ := wake_eq s (.caller i)
    obtain ⟨ready, heq, hr⟩ := ih { s with ready := r }
    refine ⟨ready, ?_, List.Subset.trans hsub hr.subset, ?_⟩
    · rw [show s.wakeAll (i :: indices) = (s.wake (.caller i)).wakeAll indices from rfl, hwake, heq]
    · intro index call hcall hmem
      rcases List.mem_cons.1 hmem with rfl | hmem
      · exact hr.subset hi
      · exact hr.mem index call hcall hmem

theorem mem_callsWhere {p : Call → Bool} {index : Nat} :
    index ∈ s.callsWhere p ↔ ∃ call, s.calls[index]? = some call ∧ p call = true := by
  simp only [callsWhere, List.mem_filter, List.mem_range]
  constructor
  · rintro ⟨hlt, hp⟩
    refine ⟨s.calls[index], List.getElem?_eq_getElem hlt, ?_⟩
    simpa [List.getElem?_eq_getElem hlt] using hp
  · rintro ⟨call, hcall, hp⟩
    exact ⟨(List.getElem?_eq_some_iff.1 hcall).1, by simp [hcall, hp]⟩

theorem wakeWhere_eq (s : Session) (p : Stage → Bool) :
    ∃ ready, s.wakeWhere p = { s with ready } ∧ s.Rouses ready fun _ stage => p stage = true := by
  obtain ⟨ready, heq, hr⟩ := wakeAll_eq s (s.callsWhere fun c => p c.stage)
  exact ⟨ready, heq, hr.subset, fun index call hcall hp =>
    hr.mem index call hcall (mem_callsWhere.2 ⟨call, hcall, hp⟩)⟩

/-! ### News -/

theorem tell_eq (s : Session) (waiter : Nat) (reply : Except Error Message) :
    ∃ ready, s.tell waiter reply = { s with replies := s.replies ++ [(waiter, reply)], ready } ∧
      s.Rouses ready fun _ stage => stage = .forReply waiter := by
  obtain ⟨ready, heq, hsub, hmem⟩ : ∃ ready, s.tell waiter reply =
      { s with replies := s.replies ++ [(waiter, reply)], ready } ∧ _ := wakeWhere_eq _ _
  refine ⟨ready, heq, hsub, ?_⟩
  intro index call hcall hstage
  exact hmem index call hcall (by simp [hstage])

theorem note_eq (s : Session) (ticket : Nat) (outcome : Except Error Unit) :
    ∃ ready, s.note ticket outcome =
        { s with receipts := s.receipts ++ [(ticket, outcome)], ready } ∧
      s.Rouses ready fun _ stage => ∃ w, stage = .forWrite ticket w := by
  obtain ⟨ready, heq, hsub, hmem⟩ : ∃ ready, s.note ticket outcome =
      { s with receipts := s.receipts ++ [(ticket, outcome)], ready } ∧ _ := wakeWhere_eq _ _
  refine ⟨ready, heq, hsub, ?_⟩
  rintro index call hcall ⟨w, hstage⟩
  exact hmem index call hcall (by simp [hstage])

/-- Telling several waiters the same. -/
theorem foldl_tell_eq (s : Session) (waiters : List Waiter) (reply : Except Error Message) :
    ∃ ready, waiters.foldl (fun s w => s.tell w.id reply) s =
        { s with replies := s.replies ++ waiters.map (fun w => (w.id, reply)), ready } ∧
      s.Rouses ready fun _ stage => ∃ w ∈ waiters, stage = .forReply w.id := by
  induction waiters generalizing s with
  | nil => exact ⟨s.ready, by simp, List.Subset.refl _, by simp⟩
  | cons w waiters ih =>
    obtain ⟨r, htell, hr⟩ := tell_eq s w.id reply
    obtain ⟨ready, heq, hrs⟩ := ih (s.tell w.id reply)
    rw [htell] at heq hrs
    refine ⟨ready, ?_, (hr.trans hrs rfl rfl).imp ?_⟩
    · rw [List.foldl_cons, htell, heq]
      simp
    · rintro index stage ⟨w', hw', hstage⟩
      rcases List.mem_cons.1 hw' with rfl | hw'
      · exact .inl hstage
      · exact .inr ⟨w', hw', hstage⟩

/-- Noting the same of several frames. -/
theorem foldl_note_eq (s : Session) (frames : List Outgoing) (outcome : Except Error Unit) :
    ∃ ready, frames.foldl (fun s o => s.note o.ticket outcome) s =
        { s with receipts := s.receipts ++ frames.map (fun o => (o.ticket, outcome)), ready } ∧
      s.Rouses ready fun _ stage => ∃ o ∈ frames, ∃ w, stage = .forWrite o.ticket w := by
  induction frames generalizing s with
  | nil => exact ⟨s.ready, by simp, List.Subset.refl _, by simp⟩
  | cons o frames ih =>
    obtain ⟨r, hnote, hr⟩ := note_eq s o.ticket outcome
    obtain ⟨ready, heq, hrs⟩ := ih (s.note o.ticket outcome)
    rw [hnote] at heq hrs
    refine ⟨ready, ?_, (hr.trans hrs rfl rfl).imp ?_⟩
    · rw [List.foldl_cons, hnote, heq]
      simp
    · rintro index stage ⟨o', ho', hstage⟩
      rcases List.mem_cons.1 ho' with rfl | ho'
      · exact .inl hstage
      · exact .inr ⟨o', ho', hstage⟩

/-! ### Closing -/

/-- What waiters are told when there will be no response. -/
def lastReplies (o : Outstanding) (e : Error) : List (Nat × Except Error Message) :=
  o.waiters.map fun w => (w.id, .error e)

/-- What is noted of frames that will not be written. -/
def lastReceipts (q : Outbound) : List (Nat × Except Error Unit) :=
  q.queued.map fun o => (o.ticket, .error .dead)

/-- Who waits for a frame of a queue to be written, or for a slot of it. -/
def WaitsAt (q : Outbound) (index : Nat) (stage : Stage) : Prop :=
  (∃ o ∈ q.queued, ∃ w, stage = .forWrite o.ticket w) ∨ index ∈ q.granted ∨ index ∈ q.blocked

theorem closeOutstanding_eq (s : Session) (e : Error) :
    ∃ ready, s.closeOutstanding e =
        { s with
          outstanding := s.outstanding.close
          replies := s.replies ++ lastReplies s.outstanding e
          ready } ∧
      s.Rouses ready fun _ stage => ∃ w ∈ s.outstanding.waiters, stage = .forReply w.id := by
  obtain ⟨ready, heq, hsub, hmem⟩ :=
    foldl_tell_eq { s with outstanding := s.outstanding.close } s.outstanding.waiters (.error e)
  exact ⟨ready, heq, hsub, hmem⟩

theorem closeOutbound_eq (s : Session) :
    ∃ ready, s.closeOutbound =
        { s with
          outbound := s.outbound.close
          receipts := s.receipts ++ lastReceipts s.outbound
          ready } ∧
      s.Rouses ready (WaitsAt s.outbound) := by
  obtain ⟨r, hwake, hr⟩ := wakeAll_eq { s with outbound := s.outbound.close }
    (s.outbound.granted ++ s.outbound.blocked)
  obtain ⟨ready, heq, hrs⟩ := foldl_note_eq
    { s with outbound := s.outbound.close, ready := r } s.outbound.queued (.error .dead)
  have hrs' := hr.trans hrs rfl rfl
  refine ⟨ready, ?_, hrs'.subset, ?_⟩
  · rw [closeOutbound, hwake, heq, lastReceipts]
  · rintro index call hcall (hstage | hindex)
    · exact hrs'.mem index call hcall (.inr hstage)
    · exact hrs'.mem index call hcall (.inl (by simpa using hindex))

theorem cutOff_eq (s : Session) :
    ∃ ready, s.cutOff =
        { s with
          pumpState := .cutOff
          outbound := s.outbound.close
          receipts := s.receipts ++ lastReceipts s.outbound
          ready } ∧
      s.Rouses ready (WaitsAt s.outbound) := by
  obtain ⟨ready, heq, hsub, hmem⟩ := closeOutbound_eq { s with pumpState := .cutOff }
  exact ⟨ready, heq, hsub, hmem⟩

theorem conclude_eq (s : Session) :
    ∃ ready, s.conclude =
        { s with
          pumpState := .closed
          outbound := s.outbound.close
          receipts := s.receipts ++ lastReceipts s.outbound
          hub := s.hub.close
          ready } ∧
      s.Rouses ready fun index stage => WaitsAt s.outbound index stage ∨ stage = .forPump := by
  obtain ⟨r, hclose, hr⟩ := closeOutbound_eq { s with pumpState := .closed }
  obtain ⟨ready, heq, hrs⟩ : ∃ ready, s.conclude =
      { { s with pumpState := .closed }.closeOutbound.closeHub with ready } ∧ _ := wakeWhere_eq _ _
  rw [hclose] at heq hrs
  have hrs' := hr.trans hrs rfl rfl
  refine ⟨ready, heq, hrs'.subset, ?_⟩
  · rintro index call hcall (hwaits | hstage)
    · exact hrs'.mem index call hcall (.inl hwaits)
    · exact hrs'.mem index call hcall (.inr (by simp [hstage]))

/-! ### The outbound queue and the line -/

/-- A slot that is free goes to the caller who is named. -/
theorem regrant_eq (s : Session) (freed : Option Nat × Outbound) :
    ∃ ready, s.regrant freed = { s with outbound := freed.2, ready } ∧
      s.Rouses ready fun index _ => freed.1 = some index := by
  obtain ⟨ready, heq, hsub, hmem⟩ := wakeAll_eq { s with outbound := freed.2 } freed.1.toList
  exact ⟨ready, heq, hsub, fun index call hcall h => hmem index call hcall (by simp [h])⟩

/-- Whoever comes to the head of the line is roused. -/
theorem leaveLine_eq (s : Session) (index : Nat) :
    ∃ ready, s.leaveLine index = { s with line := s.line.erase index, ready } ∧
      s.Rouses ready fun i _ => index ∈ s.line ∧ (s.line.erase index).head? = some i := by
  unfold leaveLine
  split
  · obtain ⟨ready, heq, hsub, hmem⟩ :=
      wakeAll_eq { s with line := s.line.erase index } (s.line.erase index).head?.toList
    exact ⟨ready, heq, hsub, fun i call hcall h => hmem i call hcall (by simp [h.2])⟩
  · rename_i h
    have hnot : index ∉ s.line := by simpa using h
    refine ⟨s.ready, by rw [List.erase_of_not_mem hnot], List.Subset.refl _, ?_⟩
    rintro i call hcall ⟨hmem, -⟩
    exact absurd hmem hnot

/-- The waiters that are left when a stage is given up. -/
def withoutWaiter (o : Outstanding) (stage : Stage) : Outstanding :=
  match stage.waiter? with
  | some waiter => o.remove waiter
  | none => o

/-- Who gets the slot of a caller that gives up a stage, and the outbound queue that is left. -/
def withoutCaller (q : Outbound) (index : Nat) : Stage → Option Nat × Outbound
  | .forSlot _ _ => q.withdraw index
  | _ => (none, q)

/-- What a call gives up, and who is roused by that. -/
theorem relinquish_eq (s : Session) (index : Nat) (stage : Stage) :
    ∃ ready, s.relinquish index stage =
        { s with
          outstanding := withoutWaiter s.outstanding stage
          outbound := (withoutCaller s.outbound index stage).2
          line := s.line.erase index
          ready } ∧
      s.Rouses ready fun i _ =>
        (withoutCaller s.outbound index stage).1 = some i ∨
          index ∈ s.line ∧ (s.line.erase index).head? = some i := by
  obtain ⟨r, hgrant, hr⟩ := regrant_eq
    { s with outstanding := withoutWaiter s.outstanding stage }
    (withoutCaller s.outbound index stage)
  obtain ⟨ready, hline, hrs⟩ := leaveLine_eq
    ({ s with outstanding := withoutWaiter s.outstanding stage }.regrant
      (withoutCaller s.outbound index stage)) index
  have hrel : s.relinquish index stage =
      ({ s with outstanding := withoutWaiter s.outstanding stage }.regrant
        (withoutCaller s.outbound index stage)).leaveLine index := by
    unfold relinquish
    cases stage with
    | forSlot bytes waiter => cases waiter <;> rfl
    | forWrite ticket waiter => cases waiter <;> rfl
    | _ => rfl
  rw [hgrant] at hline hrs
  have hrs' := hr.trans hrs rfl rfl
  exact ⟨ready, by rw [hrel, hgrant, hline], hrs'.subset, hrs'.mem⟩

/-! ### Handing out frames -/

/-- What handing out a frame changes: at most one waiter is told something. -/
theorem route_eq (s : Session) (frame : Frame) :
    ∃ outstanding news hub ready,
      s.route frame = { s with outstanding, replies := s.replies ++ news, hub, ready } ∧
      outstanding.closed = s.outstanding.closed ∧ (∀ r ∈ news, ∃ m, r.2 = .ok m) ∧
      s.Rouses ready fun _ stage => ∃ r ∈ news, stage = .forReply r.1 := by
  have hnothing : s.Rouses s.ready fun _ stage =>
      ∃ r ∈ ([] : List (Nat × Except Error Message)), stage = .forReply r.1 :=
    ⟨List.Subset.refl _, by simp⟩
  unfold route
  split
  · exact ⟨s.outstanding, [], s.hub, s.ready, by simp, rfl, by simp, hnothing⟩
  · rename_i m hm
    split
    · exact ⟨s.outstanding, [], s.hub.publish m, s.ready, by simp, rfl, by simp, hnothing⟩
    · dsimp only
      split
      · exact ⟨(s.outstanding.offer frame.id m).2, [], s.hub, s.ready, by simp, by simp, by simp,
          hnothing⟩
      · rename_i waiter _
        obtain ⟨ready, heq, hr⟩ :=
          tell_eq { s with outstanding := (s.outstanding.offer frame.id m).2 } waiter (.ok m)
        refine ⟨_, [(waiter, .ok m)], s.hub, ready, heq, by simp, by simp, hr.subset, ?_⟩
        rintro index call hcall ⟨r, hmem, hstage⟩
        rw [List.mem_singleton.1 hmem] at hstage
        exact hr.mem index call hcall hstage

/-! ### Stages -/

theorem setStage_eq (s : Session) (index : Nat) (stage : Stage) :
    s.setStage index stage = { s with calls := s.calls.modify index (·.atStage stage) } := rfl

end Session

end BleHost
