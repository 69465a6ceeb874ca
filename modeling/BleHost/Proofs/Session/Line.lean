import BleHost.Proofs.Session.Calls

/-!
# The line of exchanges

In line stand the exchanges that exclude each other, each from the moment it comes in until it is
over (`LineSound`). So whoever is at the head of the line has something left to be done. Nobody else
in line has begun.
-/

namespace BleHost

namespace Session

variable {i j : Nat} {s t : Session} {call : Call} {hs : List (Session × Frame)}

/-- Who stands in line. -/
structure LineSound (s : Session) : Prop where
  distinct : s.line.Nodup
  mem : ∀ j, j ∈ s.line ↔ ∃ call : Call, s.calls[j]? = some call ∧
    call.request.exclusive?.isSome = true ∧ call.stage.isOver = false
  begun : ∀ (j : Nat) (call : Call), s.calls[j]? = some call →
    call.request.exclusive?.isSome = true → call.stage.isOver = false → call.stage ≠ .inLine →
    s.line.head? = some j

namespace LineSound

/-- A call has gone on and is not over. -/
theorem modify (h : s.LineSound) (hcall : s.calls[i]? = some call) {f : Call → Call}
    (hrequest : (f call).request = call.request) (hgoing : call.stage.isOver = false)
    (hstill : (f call).stage.isOver = false)
    (hturn : call.request.exclusive?.isSome = true → call.stage = .inLine →
      s.line.head? = some i)
    (hline : t.line = s.line) (hcalls : t.calls = s.calls.modify i f) : t.LineSound := by
  refine ⟨hline ▸ h.distinct, ?_, ?_⟩
  · intro j
    rw [hline, h.mem, hcalls]
    by_cases hij : i = j
    · subst hij
      rw [getElem?_modify_self hcall, hcall]
      simp [hrequest, hgoing, hstill]
    · rw [getElem?_modify_of_ne hij]
  · intro j call' hj hexclusive hover hbegun
    rw [hline]
    by_cases hij : i = j
    · subst hij
      rw [hcalls, getElem?_modify_self hcall] at hj
      rw [← Option.some.inj hj, hrequest] at hexclusive
      by_cases hstage : call.stage = .inLine
      · exact hturn hexclusive hstage
      · exact h.begun i call hcall hexclusive hgoing hstage
    · rw [hcalls, getElem?_modify_of_ne hij] at hj
      exact h.begun j call' hj hexclusive hover hbegun

/-- A call has come in, and stands in line if it excludes others. -/
theorem enter (h : s.LineSound) (entered : Call) (hstage : entered.stage = .inLine)
    (hline : t.line =
      if entered.request.exclusive?.isSome then s.line ++ [s.calls.length] else s.line)
    (hcalls : t.calls = s.calls ++ [entered]) : t.LineSound := by
  have hnew : s.calls.length ∉ s.line := by
    intro hmem
    obtain ⟨call, hcall, -⟩ := (h.mem _).1 hmem
    simp at hcall
  have hlast : (s.calls ++ [entered])[s.calls.length]? = some entered := by simp
  have hold : ∀ j, j ≠ s.calls.length → (s.calls ++ [entered])[j]? = s.calls[j]? := by
    intro j hne
    rcases Nat.lt_or_ge j s.calls.length with hlt | hge
    · rw [List.getElem?_append_left hlt]
    · rw [List.getElem?_eq_none (by simp; omega), List.getElem?_eq_none hge]
  constructor
  · rw [hline]
    split
    · refine List.nodup_append.2 ⟨h.distinct, List.pairwise_singleton _ _, ?_⟩
      intro j hj k hk
      rw [List.mem_singleton.1 hk]
      rintro rfl
      exact hnew hj
    · exact h.distinct
  · intro j
    rw [hline, hcalls]
    by_cases hj : j = s.calls.length
    · subst hj
      rw [hlast]
      split
      · rename_i hexclusive
        simp [hexclusive, hstage, Stage.isOver]
      · rename_i hfree
        simp [hfree, hnew]
    · rw [hold j hj, ← h.mem]
      split
      · simp [hj]
      · rfl
  · intro j call hj hexclusive hover hbegun
    rw [hcalls] at hj
    have hne : j ≠ s.calls.length := by
      rintro rfl
      rw [hlast] at hj
      exact hbegun (Option.some.inj hj ▸ hstage)
    rw [hold j hne] at hj
    have hhead := h.begun j call hj hexclusive hover hbegun
    rw [hline]
    split
    · rw [List.head?_append, hhead]
      rfl
    · exact hhead

/-- A call is over, and has left the line. -/
theorem finish (h : s.LineSound) (hcall : s.calls[i]? = some call) {stage : Stage}
    (hover : stage.isOver = true) (hline : t.line = s.line.erase i)
    (hcalls : t.calls = s.calls.modify i (·.atStage stage)) : t.LineSound := by
  constructor
  · rw [hline]
    exact h.distinct.erase i
  · intro j
    rw [hline, h.distinct.mem_erase_iff, hcalls, h.mem]
    by_cases hij : i = j
    · subst hij
      rw [getElem?_modify_self hcall]
      simp [hover]
    · rw [getElem?_modify_of_ne hij]
      simp [Ne.symm hij]
  · intro j call' hj hexclusive hgoing hbegun
    rw [hcalls] at hj
    have hij : i ≠ j := by
      rintro rfl
      rw [getElem?_modify_self hcall] at hj
      rw [← Option.some.inj hj, Call.stage_atStage, hover] at hgoing
      cases hgoing
    rw [getElem?_modify_of_ne hij] at hj
    obtain ⟨rest, hrest⟩ :=
      List.head?_eq_some_iff.1 (h.begun j call' hj hexclusive hgoing hbegun)
    rw [hline, hrest, List.erase_cons_tail (by simpa using Ne.symm hij)]
    rfl

theorem of_eq (h : s.LineSound) (hline : t.line = s.line) (hcalls : t.calls = s.calls) :
    t.LineSound :=
  ⟨hline ▸ h.distinct, by rw [hline, hcalls]; exact h.mem, by rw [hline, hcalls]; exact h.begun⟩

theorem move (h : s.LineSound) (hmove : Move i s t) : t.LineSound := by
  cases hmove with
  | enter request deadline hi =>
    subst hi
    exact h.enter ⟨request, deadline, .inLine⟩ rfl rfl rfl
  | queue hcall hstage hturn hlive hclaims hopen hroom hready =>
    exact h.modify hcall rfl (by rw [hstage]; rfl) (Stage.isOver_queued ..)
      (fun hexclusive _ => hturn hexclusive) rfl rfl
  | block hcall hstage hturn hlive hclaims hopen hroom =>
    exact h.modify hcall rfl (by rw [hstage]; rfl) rfl (fun hexclusive _ => hturn hexclusive)
      rfl rfl
  | refuse bytes hcall hstage hturn hlive hclaims hclosed =>
    exact h.modify hcall rfl (by rw [hstage]; rfl) rfl (fun hexclusive _ => hturn hexclusive)
      rfl rfl
  | retry hcall hstage hopen hgranted hready =>
    exact h.modify hcall rfl (by rw [hstage]; rfl) (Stage.isOver_queued ..)
      (fun _ hin => nomatch hstage.symm.trans hin) rfl rfl
  | expect hcall hstage hreceipt hreply =>
    exact h.modify hcall rfl (by rw [hstage]; rfl) rfl (fun _ hin => nomatch hstage.symm.trans hin)
      rfl rfl
  | await hcall hstage =>
    exact h.modify hcall rfl (by rw [hstage]; rfl) rfl (fun _ hin => nomatch hstage.symm.trans hin)
      rfl rfl
  | waitForPump hcall hstage hrequest hrun =>
    refine h.modify hcall rfl (by rw [hstage]; rfl) rfl (fun hexclusive _ => ?_) rfl rfl
    rw [hrequest] at hexclusive
    cases hexclusive
  | finish hcall hgoing hover hready =>
    exact h.finish hcall (isOver_of_finished hover) rfl rfl
  | _ => exact h.of_eq rfl rfl

theorem moves (h : s.LineSound) (hmoves : Moves i hs s t) : t.LineSound := by
  induction hmoves with
  | refl s => exact h
  | move hmove hrest ih => exact ih (h.move hmove)
  | @route hs s u frame hrun hrest ih =>
    obtain ⟨outstanding, news, hub, ready, heq, -⟩ := route_eq s frame
    exact ih (h.of_eq (by rw [heq]) (by rw [heq]))

theorem ofSettings {settings : Settings} (h : ofSettings settings = .ok s) : s.LineSound := by
  obtain rfl := eq_of_ofSettings h
  refine ⟨.nil, fun j => ⟨fun hj => absurd hj List.not_mem_nil, ?_⟩, ?_⟩
  · rintro ⟨call, hcall, -⟩
    simp at hcall
  · intro j call hcall
    simp at hcall

theorem of_reachable (h : s.Reachable) : s.LineSound :=
  h.induction (fun _ _ => ofSettings) (fun _ _ h => h.of_eq rfl rfl) fun _ _ _ _ h => h.moves

/-- Whoever is at the head of the line is there for an exchange that is not over. -/
theorem head (h : s.LineSound) (hhead : s.line.head? = some j) :
    ∃ call : Call, s.calls[j]? = some call ∧ call.request.exclusive?.isSome = true ∧
      call.stage.isOver = false :=
  (h.mem j).1 (List.mem_of_head? hhead)

end LineSound

end Session

end BleHost
