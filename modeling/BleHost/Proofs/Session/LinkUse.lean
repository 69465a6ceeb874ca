import BleHost.Proofs.Session.Closed

/-!
# How a session uses its link

The pump writes a frame, reads, and closes the link when it stops in good order
(`Session.linkUses`); nobody else uses the link. Over a run the link is closed once at most and not
used afterwards (`linkHistory_eq`). What a bench does to its link is what the actions of its session
say (`Bench.link_of_next?`).
-/

namespace BleHost

/-- One use of a link. -/
inductive LinkUse
  | write (bytes : List UInt8)
  | read
  | close
deriving DecidableEq, Repr

/-- A link after one use. -/
def ScriptedLink.after (l : ScriptedLink) : LinkUse → ScriptedLink
  | .write bytes => (l.write bytes).2
  | .read => (l.read readRoom).2
  | .close => l.close

namespace Session

variable {i : Nat} {s t : Session} {hs : List (Session × Frame)} {action : Action}
  {actions actions' : List Action}

/-- What an action tries on the link. -/
def access (s : Session) : Action → List LinkUse
  | .write _ =>
    match s.want with
    | .write frame => [.write frame.bytes]
    | _ => []
  | .read _ => [.read]
  | _ => []

/-- How an action uses the link: the pump closes it when it stops in good order. -/
def linkUses (s : Session) (action : Action) : List LinkUse :=
  match s.step? action with
  | some t =>
    s.access action ++ if s.pumpState ≠ .closed ∧ t.pumpState = .closed then [.close] else []
  | none => []

/-- How a run uses the link, in order. -/
def linkHistory (s : Session) : List Action → List LinkUse
  | [] => []
  | action :: actions =>
    match s.step? action with
    | none => []
    | some t => s.linkUses action ++ t.linkHistory actions

theorem linkHistory_cons (h : s.step? action = some t) :
    s.linkHistory (action :: actions) = s.linkUses action ++ t.linkHistory actions := by
  rw [linkHistory, h]

theorem close_not_mem_access (s : Session) (action : Action) : .close ∉ s.access action := by
  unfold access
  split
  · split <;> simp
  · simp
  · simp

/-! ### The end of the pump -/

/-- A pump that has closed the link has done so for good. -/
theorem Move.closed_of_closed (hmove : Move i s t) (h : s.pumpState = .closed) :
    t.pumpState = .closed := by
  cases hmove with
  | cutOff hdown hsilent hneed hready hopen => exact absurd h hopen
  | goOn hpump hrun hnew =>
    have hover := hrun.2
    rw [h] at hover
    cases hover
  | conclude hpump hrun hstops hready => rfl
  | breakOff hpump hrun hb hready =>
    have hover := hrun.2
    rw [h] at hover
    cases hover
  | _ => exact h

/-- A pump that has ended in another way does not close the link any more. -/
theorem Move.closed_of_over (hmove : Move i s t) (hover : s.pumpState.isOver = true)
    (h : t.pumpState = .closed) : s.pumpState = .closed := by
  cases hmove with
  | conclude hpump hrun hstops hready =>
    rw [hrun] at hover
    cases hover
  | goOn hpump hrun hnew =>
    rw [hrun.2] at hover
    cases hover
  | cutOff hdown hsilent hneed hready hopen => cases h
  | breakOff hpump hrun hb hready => cases h
  | _ => exact h

/-- Nor does a caller. -/
theorem Move.closed_of_caller (hmove : Move i s t) (hi : i ≤ s.calls.length)
    (h : t.pumpState = .closed) : s.pumpState = .closed := by
  cases hmove with
  | conclude hpump hrun hstops hready => exact absurd hi (Nat.not_le.2 hpump)
  | goOn hpump hrun hnew => exact absurd hi (Nat.not_le.2 hpump)
  | cutOff hdown hsilent hneed hready hopen => cases h
  | breakOff hpump hrun hb hready => cases h
  | _ => exact h

theorem pumpState_route (s : Session) (frame : Frame) :
    (s.route frame).pumpState = s.pumpState := by
  obtain ⟨outstanding, news, hub, ready, heq, -⟩ := route_eq s frame
  rw [heq]

theorem Moves.closed_of_closed (hmoves : Moves i hs s t) (h : s.pumpState = .closed) :
    t.pumpState = .closed := by
  induction hmoves with
  | refl s => exact h
  | move hmove hrest ih => exact ih (hmove.closed_of_closed h)
  | route hrun hrest ih => exact ih ((pumpState_route _ _).trans h)

theorem Moves.closed_of_over (hmoves : Moves i hs s t) (hover : s.pumpState.isOver = true)
    (h : t.pumpState = .closed) : s.pumpState = .closed := by
  induction hmoves with
  | refl s => exact h
  | move hmove hrest ih =>
    exact hmove.closed_of_over hover (ih ((Grown.of_move hmove).stopped hover) h)
  | route hrun hrest ih =>
    rw [hrun.2] at hover
    cases hover

theorem Move.length_calls_le (hmove : Move i s t) : s.calls.length ≤ t.calls.length := by
  cases hmove <;> simp

theorem Moves.closed_of_caller (hmoves : Moves i hs s t) (hi : i ≤ s.calls.length)
    (h : t.pumpState = .closed) : s.pumpState = .closed := by
  induction hmoves with
  | refl s => exact h
  | move hmove hrest ih =>
    exact hmove.closed_of_caller hi (ih (Nat.le_trans hi hmove.length_calls_le) h)
  | @route hs s u frame hrun hrest ih =>
    rw [← pumpState_route s frame]
    exact ih (by rwa [calls_route]) h

theorem closed_of_step? (hstep : s.step? action = some t) (h : s.pumpState = .closed) :
    t.pumpState = .closed :=
  (moves_of_step? hstep).closed_of_closed h

theorem closed_of_run? (hrun : s.run? actions = some t) (h : s.pumpState = .closed) :
    t.pumpState = .closed :=
  run?_induction (P := fun u => u.pumpState = .closed)
    (fun _ _ _ hu hstep => closed_of_step? hstep hu)
    hrun h

/-! ### Uses over a run -/

theorem linkUses_eq (hstep : s.step? action = some t) :
    s.linkUses action = s.access action ++
      if s.pumpState ≠ .closed ∧ t.pumpState = .closed then [.close] else [] := by
  rw [linkUses, hstep]

/-- Once the pump has ended, nobody uses the link. -/
theorem linkUses_of_over (hover : s.pumpState.isOver = true) (action : Action) :
    s.linkUses action = [] := by
  rcases hstep : s.step? action with _ | t
  · rw [linkUses, hstep]
  · have haccess : s.access action = [] := by
      cases action with
      | write outcome =>
        simp only [step?] at hstep
        split at hstep
        · rename_i frame hwant
          rw [(isRunning_of_write hwant).1.2] at hover
          cases hover
        · cases hstep
      | read outcome =>
        simp only [step?] at hstep
        split at hstep
        · rename_i hwant
          rw [(isRunning_of_read hwant).2] at hover
          cases hover
        · cases hstep
      | _ => rfl
    have hsame : ¬ (s.pumpState ≠ .closed ∧ t.pumpState = .closed) := by
      rintro ⟨hopen, hclosed⟩
      exact hopen ((moves_of_step? hstep).closed_of_over hover hclosed)
    rw [linkUses_eq hstep, haccess, if_neg hsame, List.append_nil]

theorem linkHistory_of_over (hover : s.pumpState.isOver = true) (actions : List Action) :
    s.linkHistory actions = [] := by
  induction actions generalizing s with
  | nil => rfl
  | cons action actions ih =>
    rcases hstep : s.step? action with _ | t
    · rw [linkHistory, hstep]
    · rw [linkHistory_cons hstep, linkUses_of_over hover,
        ih ((Grown.of_step? hstep).stopped hover), List.nil_append]

/-- A pump that has closed the link by the end of a run has done so last of all, and once; one that
has not has not closed it at all. -/
theorem linkHistory_eq (hopen : s.pumpState ≠ .closed) (hrun : s.run? actions = some t) :
    ∃ uses, .close ∉ uses ∧
      s.linkHistory actions = uses ++ if t.pumpState = .closed then [.close] else [] := by
  induction actions generalizing s with
  | nil =>
    obtain rfl : s = t := by simpa using hrun
    exact ⟨[], List.not_mem_nil, by rw [if_neg hopen]; rfl⟩
  | cons action actions ih =>
    obtain ⟨u, hstep, hrest⟩ := run?_cons_eq_some.1 hrun
    have haccess := close_not_mem_access s action
    rw [linkHistory_cons hstep, linkUses_eq hstep]
    by_cases hclosed : u.pumpState = .closed
    · refine ⟨s.access action, haccess, ?_⟩
      rw [if_pos ⟨hopen, hclosed⟩, if_pos (closed_of_run? hrest hclosed),
        linkHistory_of_over (by rw [hclosed]; rfl), List.append_nil]
    · obtain ⟨uses, huses, heq⟩ := ih hclosed hrest
      refine ⟨s.access action ++ uses, ?_, ?_⟩
      · rw [List.mem_append, not_or]
        exact ⟨haccess, huses⟩
      · rw [if_neg fun h => hclosed h.2, heq, List.append_nil, List.append_assoc]

end Session

/-! ### A bench uses the link of its session -/

namespace Bench

variable {b b' : Bench}

/-- A bench closes its link when the pump has stopped in good order. -/
theorem link_closeLink (b : Bench) :
    b.closeLink.link = if b.session.pumpState = .closed then b.link.close else b.link := by
  unfold closeLink
  split
  · rename_i hclosed
    rw [if_pos hclosed]
  · rename_i hopen
    rw [if_neg hopen]

/-- The link of a bench whose session has taken an action and has closed the link if it had to. -/
theorem link_eq {s t : Session} {action : Action} {l l' : ScriptedLink}
    (hstep : s.step? action = some t) (hopen : s.pumpState ≠ .closed)
    (haccess : (s.access action).foldl ScriptedLink.after l = l') :
    (Bench.closeLink ⟨t, l'⟩).link = (s.linkUses action).foldl ScriptedLink.after l := by
  rw [link_closeLink, Session.linkUses_eq hstep, List.foldl_append, haccess]
  by_cases hclosed : t.pumpState = .closed
  · rw [if_pos hclosed, if_pos ⟨hopen, hclosed⟩]
    rfl
  · rw [if_neg hclosed, if_neg fun h => hclosed h.2]
    rfl

/-- A round of the pump uses the link as its action says. -/
theorem link_of_round? (h : b.round? = some b') :
    ∃ action, b.session.step? action = some b'.session ∧
      b'.link = (b.session.linkUses action).foldl ScriptedLink.after b.link := by
  have hopen : b.session.want ≠ .nothing → b.session.pumpState ≠ .closed := by
    intro hwant hclosed
    have hover := Session.not_isOver_of_want hwant
    rw [hclosed] at hover
    cases hover
  unfold round? at h
  split at h
  · cases h
  · rename_i hwant
    obtain rfl := Option.some.inj h
    have hstep : b.session.step? .halt = some b.session.halt := by simp [Session.step?, hwant]
    refine ⟨.halt, ?_, ?_⟩
    · rw [hstep, session_closeLink]
    · exact link_eq hstep (hopen (by simp [hwant])) rfl
  · rename_i frame hwant
    rcases hlink : b.link.write frame.bytes with ⟨outcome, link⟩
    rw [hlink] at h
    obtain rfl := Option.some.inj h
    have hstep : b.session.step? (.write outcome) = some (b.session.wrote frame outcome) := by
      simp only [Session.step?, hwant]
    refine ⟨.write outcome, ?_, link_eq hstep (hopen (by simp [hwant])) ?_⟩
    · rw [hstep, session_closeLink]
    · rw [Session.access, hwant]
      exact congrArg Prod.snd hlink
  · rename_i hwant
    have hread : ∀ outcome link, (b.link.read readRoom).2 = link →
        b' = ({ session := b.session.read outcome, link : Bench }).closeLink →
        ∃ action, b.session.step? action = some b'.session ∧
          b'.link = (b.session.linkUses action).foldl ScriptedLink.after b.link := by
      rintro outcome link hlink rfl
      have hstep : b.session.step? (.read outcome) = some (b.session.read outcome) := by
        simp only [Session.step?, hwant, if_true]
      refine ⟨.read outcome, ?_, link_eq hstep (hopen (by simp [hwant])) ?_⟩
      · rw [hstep, session_closeLink]
      · exact hlink
    split at h
    · cases h
    · rename_i bytes link hlink
      exact hread _ link (by rw [hlink]) (Option.some.inj h).symm
    · rename_i e link hlink
      exact hread _ link (by rw [hlink]) (Option.some.inj h).symm

/-- A turn of a caller uses no link. -/
theorem linkUses_turn (s : Session) (index : Nat) : s.linkUses (.turn index) = [] := by
  have hstep : s.step? (.turn index) =
      some ({ s with ready := s.ready.erase (.caller index) }.turn index) := rfl
  rw [Session.linkUses_eq hstep]
  refine if_neg fun ⟨hopen, hclosed⟩ => hopen ?_
  by_cases hindex : index ≤ s.calls.length
  · have hmoves := Session.moves_turn index { s with ready := s.ready.erase (.caller index) }
    exact hmoves.closed_of_caller hindex hclosed
  · have hnone : s.calls[index]? = none := List.getElem?_eq_none (by omega)
    rwa [Session.turn, show _ = none from hnone] at hclosed

/-- Whatever a bench does next, it uses its link as the action of its session says. -/
theorem link_of_next? (h : b.next? = some b') :
    ∃ action, b.session.step? action = some b'.session ∧
      b'.link = (b.session.linkUses action).foldl ScriptedLink.after b.link := by
  unfold next? at h
  split at h
  · cases h
  · rename_i rest hready
    split at h
    · rename_i c hround
      rw [← Option.some.inj h]
      exact link_of_round? hround
    · obtain rfl := Option.some.inj h
      have hstep : b.session.step? .pause = some { b.session with ready := rest } := by
        simp [Session.step?, hready]
      refine ⟨.pause, hstep, ?_⟩
      rw [Session.linkUses_eq hstep, if_neg fun h => h.1 h.2]
      rfl
  · rename_i index rest hready
    obtain rfl := Option.some.inj h
    have hstep : b.session.step? (.turn index) =
        some ({ b.session with ready := rest }.turn index) := by
      simp [Session.step?, hready]
    refine ⟨.turn index, hstep, ?_⟩
    rw [linkUses_turn]
    rfl

end Bench

end BleHost
