import BleHost.Proofs.Session.Calls
import Mathlib.Data.List.Basic

/-!
# Waiters and the calls that keep them

Each waiter belongs to one call, from the moment it is made until the call is over, and is either
among those who wait or has been told something (`Accounted`). All that moves do to waiters comes
down to a few changes: a call comes in, gets a waiter, lets go of it; somebody is told a response,
or all are told that there will be none. Each keeps the accounts.
-/

namespace BleHost

/-- What a call has to do with waiters: the command whose response it awaits, and the waiter that it
keeps. -/
def Call.holding (c : Call) : Option Command × Option Nat := (c.request.awaited?, c.stage.waiter?)

namespace Outstanding

variable {o : Outstanding} {id : Identity} {m : Message}

/-- The oldest waiter for an identity waits, for that identity, which is not an event's. -/
theorem oldest?_eq_some {w : Waiter} (h : o.oldest? id = some w) :
    id.isEvent = false ∧ w ∈ o.waiters ∧ w.expects = id := by
  unfold oldest? at h
  split at h
  · cases h
  · rename_i hid
    have hexpects := List.find?_some h
    exact ⟨by simpa using hid, List.mem_of_find?_eq_some h, by simpa using hexpects⟩

/-- Among those who wait for a response there is an oldest. -/
theorem exists_oldest? {w : Waiter} (hw : w ∈ o.waiters) (hexpects : w.expects = id)
    (hevent : id.isEvent = false) : ∃ v, o.oldest? id = some v := by
  refine Option.isSome_iff_exists.1 ?_
  unfold oldest?
  rw [hevent, if_neg (by simp), List.find?_isSome]
  exact ⟨w, hw, by simp [hexpects]⟩

theorem offer_of_none (h : o.oldest? id = none) :
    o.offer id m = (none, { o with offered := o.offered ++ [(id, m)] }) := by
  have hoffered : { o with offered := o.offered ++ [(id, m)] }.oldest? id = none := h
  rw [offer, hoffered]

theorem offer_of_some {w : Waiter} (h : o.oldest? id = some w) :
    o.offer id m = (some w.id, { o.remove w.id with offered := o.offered ++ [(id, m)] }) := by
  have hoffered : { o with offered := o.offered ++ [(id, m)] }.oldest? id = some w := h
  rw [offer, hoffered]
  rfl

end Outstanding

/-! ### The accounts -/

/-- Who waits, what waiters have been told, and which calls keep which waiters: it all fits
together. -/
structure Accounted (o : Outstanding) (replies : List (Nat × Except Error Message))
    (holdings : List (Option Command × Option Nat)) : Prop where
  sorted : o.waiters.Pairwise fun v w => v.id < w.id
  bound : ∀ w ∈ o.waiters, w.id ≤ o.lastId
  told : ∀ r ∈ replies, r.1 ≤ o.lastId
  untold : ∀ w ∈ o.waiters, ∀ r ∈ replies, r.1 ≠ w.id
  kept : ∀ (i : Nat) (command? : Option Command) (w : Nat),
    holdings[i]? = some (command?, some w) → ∃ command : Command, command? = some command ∧
      (⟨w, command.responseId⟩ ∈ o.waiters ∨ ∃ reply, (w, reply) ∈ replies)
  unique : ∀ (i j : Nat) (command? command?' : Option Command) (w : Nat),
    holdings[i]? = some (command?, some w) → holdings[j]? = some (command?', some w) → i = j
  owned : ∀ w ∈ o.waiters, ∃ (i : Nat) (command? : Option Command),
    holdings[i]? = some (command?, some w.id)
  empty : o.closed = true → o.waiters = []

namespace Accounted

variable {o o' : Outstanding} {replies : List (Nat × Except Error Message)}
  {holdings : List (Option Command × Option Nat)} {command? : Option Command}

theorem nil : Accounted {} [] [] where
  sorted := .nil
  bound := fun _ hw => absurd hw List.not_mem_nil
  told := fun _ hr => absurd hr List.not_mem_nil
  untold := fun _ hw => absurd hw List.not_mem_nil
  kept := by
    intro i command? w h
    simp at h
  unique := by
    intro i j command? command?' w h
    simp at h
  owned := fun _ hw => absurd hw List.not_mem_nil
  empty := fun _ => rfl

/-- Everybody who waits has a number of his own. -/
theorem eq_of_id_eq (h : Accounted o replies holdings) {v w : Waiter} (hv : v ∈ o.waiters)
    (hw : w ∈ o.waiters) (hid : v.id = w.id) : v = w := by
  have hright : o.waiters.Pairwise fun v w => v.id = w.id → v = w :=
    h.sorted.imp fun hlt he => absurd he (Nat.ne_of_lt hlt)
  have hleft : o.waiters.Pairwise (flip fun v w => v.id = w.id → v = w) :=
    h.sorted.imp fun hlt he => absurd he (Nat.ne_of_gt hlt)
  exact hright.forall_of_forall_of_flip (fun _ _ _ => rfl) hleft hv hw hid

/-- Who is told a response has the smallest number of all who wait for it. -/
theorem le_of_oldest? (h : Accounted o replies holdings) {id : Identity} {v w : Waiter}
    (hw : o.oldest? id = some w) (hv : v ∈ o.waiters) (hid : v.expects = id) : w.id ≤ v.id := by
  have hevent := (Outstanding.oldest?_eq_some hw).1
  unfold Outstanding.oldest? at hw
  rw [hevent] at hw
  obtain ⟨-, before, after, hwaiters, hnot⟩ := List.find?_eq_some_iff_append.1 hw
  have hsorted := h.sorted
  rw [hwaiters] at hv hsorted
  rcases List.mem_append.1 hv with hv | hv
  · have hne := hnot v hv
    simp [hid] at hne
  · rcases List.mem_cons.1 hv with rfl | hv
    · exact Nat.le_refl _
    · have hrest := (List.pairwise_append.1 hsorted).2.1
      exact Nat.le_of_lt ((List.pairwise_cons.1 hrest).1 v hv)

/-- A waiter that a call keeps has a number that was given out. -/
theorem le_lastId (h : Accounted o replies holdings) {i w : Nat}
    (hw : holdings[i]? = some (command?, some w)) : w ≤ o.lastId := by
  obtain ⟨command, -, hmem | ⟨reply, hmem⟩⟩ := h.kept i command? w hw
  · exact h.bound _ hmem
  · exact h.told _ hmem

/-- A call comes in. -/
theorem enter (h : Accounted o replies holdings) :
    Accounted o replies (holdings ++ [(command?, none)]) := by
  have hold : ∀ (i : Nat) (c? : Option Command) (w : Nat),
      (holdings ++ [(command?, none)])[i]? = some (c?, some w) →
        holdings[i]? = some (c?, some w) := by
    intro i c? w hi
    rcases getElem?_append_cases hi with ⟨-, he⟩ | hi
    · cases he
    · exact hi
  refine { h with kept := ?_, unique := ?_, owned := ?_ }
  · intro i c? w hi
    exact h.kept i c? w (hold i c? w hi)
  · intro i j c? d? w hi hj
    exact h.unique i j c? d? w (hold i c? w hi) (hold j d? w hj)
  · intro w hw
    obtain ⟨i, c?, hi⟩ := h.owned w hw
    exact ⟨i, c?, by rw [List.getElem?_append_left (List.getElem?_eq_some_iff.1 hi).1, hi]⟩

/-- A call gets a waiter. -/
theorem claim (h : Accounted o replies holdings) {i waiter : Nat} {command : Command}
    (hi : holdings[i]? = some (some command, none))
    (hr : o.register command.responseId = some (waiter, o')) :
    Accounted o' replies (holdings.set i (some command, some waiter)) := by
  obtain ⟨hopen, rfl, rfl⟩ := Outstanding.register_eq_some.1 hr
  have hlt := (List.getElem?_eq_some_iff.1 hi).1
  -- whatever is kept afterwards is the new waiter, or was kept before and has a smaller number
  have hold : ∀ (j : Nat) (c? : Option Command) (w : Nat),
      (holdings.set i (some command, some (o.lastId + 1)))[j]? = some (c?, some w) →
        j = i ∧ c? = some command ∧ w = o.lastId + 1 ∨
          j ≠ i ∧ holdings[j]? = some (c?, some w) ∧ w ≤ o.lastId := by
    intro j c? w hj
    rcases getElem?_set_cases hj with ⟨rfl, he⟩ | ⟨hne, hj⟩
    · obtain ⟨rfl, hw⟩ := Prod.mk.inj he
      exact .inl ⟨rfl, rfl, Option.some.inj hw⟩
    · exact .inr ⟨hne, hj, h.le_lastId hj⟩
  constructor
  · refine List.pairwise_append.2 ⟨h.sorted, List.pairwise_singleton _ _, ?_⟩
    intro v hv w hw
    rw [List.mem_singleton.1 hw]
    exact Nat.lt_succ_of_le (h.bound v hv)
  · intro w hw
    rcases List.mem_append.1 hw with hw | hw
    · exact Nat.le_succ_of_le (h.bound w hw)
    · exact Nat.le_of_eq (congrArg Waiter.id (List.mem_singleton.1 hw))
  · intro r hr
    exact Nat.le_succ_of_le (h.told r hr)
  · intro w hw r hr
    rcases List.mem_append.1 hw with hw | hw
    · exact h.untold w hw r hr
    · rw [List.mem_singleton.1 hw]
      exact Nat.ne_of_lt (Nat.lt_succ_of_le (h.told r hr))
  · intro j c? w hj
    rcases hold j c? w hj with ⟨-, rfl, rfl⟩ | ⟨-, hj, -⟩
    · exact ⟨command, rfl, .inl (by simp)⟩
    · obtain ⟨c, hc, hmem⟩ := h.kept j c? w hj
      exact ⟨c, hc, hmem.imp_left (List.mem_append_left _)⟩
  · intro j k c? d? w hj hk
    rcases hold j c? w hj with ⟨rfl, -, hw⟩ | ⟨-, hj, hw⟩
    · rcases hold k d? w hk with ⟨rfl, -, -⟩ | ⟨-, -, hw'⟩
      · rfl
      · omega
    · rcases hold k d? w hk with ⟨-, -, hw'⟩ | ⟨-, hk, -⟩
      · omega
      · exact h.unique j k c? d? w hj hk
  · intro w hw
    rcases List.mem_append.1 hw with hw | hw
    · obtain ⟨j, c?, hj⟩ := h.owned w hw
      refine ⟨j, c?, ?_⟩
      have hij : i ≠ j := by
        rintro rfl
        rw [hi] at hj
        simp at hj
      rw [List.getElem?_set_ne hij, hj]
    · rw [List.mem_singleton.1 hw]
      exact ⟨i, some command, List.getElem?_set_self hlt⟩
  · intro hclosed
    rw [hopen] at hclosed
    cases hclosed

/-- A call that keeps no waiter has nothing to let go of. -/
theorem letGo_none (h : Accounted o replies holdings) {i : Nat}
    (hi : holdings[i]? = some (command?, none)) :
    Accounted o replies (holdings.set i (command?, none)) := by
  obtain ⟨hlt, hget⟩ := List.getElem?_eq_some_iff.1 hi
  rwa [← hget, List.set_getElem_self hlt]

/-- A call lets go of its waiter. -/
theorem letGo (h : Accounted o replies holdings) {i waiter : Nat}
    (hi : holdings[i]? = some (command?, some waiter)) :
    Accounted (o.remove waiter) replies (holdings.set i (command?, none)) := by
  have hmem : ∀ w : Waiter, w ∈ (o.remove waiter).waiters ↔ w ∈ o.waiters ∧ w.id ≠ waiter := by
    simp [Outstanding.remove]
  have hold : ∀ (j : Nat) (c? : Option Command) (w : Nat),
      (holdings.set i (command?, none))[j]? = some (c?, some w) →
        j ≠ i ∧ holdings[j]? = some (c?, some w) := by
    intro j c? w hj
    rcases getElem?_set_cases hj with ⟨-, he⟩ | hj
    · cases he
    · exact hj
  constructor
  · exact h.sorted.sublist List.filter_sublist
  · intro w hw
    exact h.bound w ((hmem w).1 hw).1
  · exact h.told
  · intro w hw
    exact h.untold w ((hmem w).1 hw).1
  · intro j c? w hj
    obtain ⟨hij, hj⟩ := hold j c? w hj
    obtain ⟨c, hc, hwaits | htold⟩ := h.kept j c? w hj
    · refine ⟨c, hc, .inl ((hmem _).2 ⟨hwaits, ?_⟩)⟩
      rintro rfl
      exact hij (h.unique j i _ _ _ hj hi)
    · exact ⟨c, hc, .inr htold⟩
  · intro j k c? d? w hj hk
    exact h.unique j k c? d? w (hold j c? w hj).2 (hold k d? w hk).2
  · intro w hw
    obtain ⟨hw, hne⟩ := (hmem w).1 hw
    obtain ⟨j, c?, hj⟩ := h.owned w hw
    have hij : i ≠ j := by
      rintro rfl
      rw [hi] at hj
      simp only [Option.some.injEq, Prod.mk.injEq] at hj
      exact hne hj.2.symm
    exact ⟨j, c?, by rw [List.getElem?_set_ne hij, hj]⟩
  · intro hclosed
    simp [Outstanding.remove, h.empty hclosed]

/-- Everybody who waits is told the same, and nobody waits any more. -/
theorem close (h : Accounted o replies holdings) (e : Error) :
    Accounted o.close (replies ++ Session.lastReplies o e) holdings := by
  constructor
  · exact .nil
  · exact fun _ hw => absurd hw List.not_mem_nil
  · intro r hr
    rcases List.mem_append.1 hr with hr | hr
    · exact h.told r hr
    · obtain ⟨w, hw, rfl⟩ := List.mem_map.1 hr
      exact h.bound w hw
  · exact fun _ hw => absurd hw List.not_mem_nil
  · intro i c? w hi
    obtain ⟨c, hc, hwaits | ⟨reply, htold⟩⟩ := h.kept i c? w hi
    · exact ⟨c, hc, .inr ⟨.error e, List.mem_append_right _ (List.mem_map.2 ⟨_, hwaits, rfl⟩)⟩⟩
    · exact ⟨c, hc, .inr ⟨reply, List.mem_append_left _ htold⟩⟩
  · exact h.unique
  · exact fun _ hw => absurd hw List.not_mem_nil
  · exact fun _ => rfl

/-- What has been offered is of no account. -/
theorem offered (h : Accounted o replies holdings) (offered : List (Identity × Message)) :
    Accounted { o with offered } replies holdings := { h with }

/-- The oldest waiter for an identity is told a response, and waits no more. -/
theorem take (h : Accounted o replies holdings) {id : Identity} {w : Waiter}
    (hw : o.oldest? id = some w) (m : Message) :
    Accounted (o.remove w.id) (replies ++ [(w.id, .ok m)]) holdings := by
  obtain ⟨-, hwaits, -⟩ := Outstanding.oldest?_eq_some hw
  have hmem : ∀ v : Waiter, v ∈ (o.remove w.id).waiters ↔ v ∈ o.waiters ∧ v.id ≠ w.id := by
    simp [Outstanding.remove]
  constructor
  · exact h.sorted.sublist List.filter_sublist
  · intro v hv
    exact h.bound v ((hmem v).1 hv).1
  · intro r hr
    rcases List.mem_append.1 hr with hr | hr
    · exact h.told r hr
    · rw [List.mem_singleton.1 hr]
      exact h.bound w hwaits
  · intro v hv r hr
    obtain ⟨hv, hne⟩ := (hmem v).1 hv
    rcases List.mem_append.1 hr with hr | hr
    · exact h.untold v hv r hr
    · rw [List.mem_singleton.1 hr]
      exact hne.symm
  · intro i c? v hi
    obtain ⟨c, hc, hv | ⟨reply, htold⟩⟩ := h.kept i c? v hi
    · refine ⟨c, hc, ?_⟩
      by_cases hne : v = w.id
      · exact .inr ⟨.ok m, by simp [hne]⟩
      · exact .inl ((hmem _).2 ⟨hv, hne⟩)
    · exact ⟨c, hc, .inr ⟨reply, List.mem_append_left _ htold⟩⟩
  · exact h.unique
  · intro v hv
    exact h.owned v ((hmem v).1 hv).1
  · intro hclosed
    simp [Outstanding.remove, h.empty hclosed]

end Accounted

/-! ### Moves keep the accounts -/

namespace Session

variable {i : Nat} {s t : Session} {call : Call} {hs : List (Session × Frame)}

theorem map_modify {α : Type} (g : Call → α) (f : Call → Call) (hcall : s.calls[i]? = some call) :
    (s.calls.modify i f).map g = (s.calls.map g).set i (g (f call)) := by
  apply List.ext_getElem?
  intro j
  rw [List.getElem?_map, List.getElem?_modify, List.getElem?_set, List.getElem?_map,
    List.length_map]
  by_cases hij : i = j
  · subst hij
    obtain ⟨hlt, hget⟩ := List.getElem?_eq_some_iff.1 hcall
    simp [hlt, hget]
  · simp [hij]

/-- The accounts of a session are in order. -/
def WaitersSound (s : Session) : Prop :=
  Accounted s.outstanding s.replies (s.calls.map Call.holding)

namespace WaitersSound

theorem getElem?_holdings (hcall : s.calls[i]? = some call) :
    (s.calls.map Call.holding)[i]? = some call.holding := by
  rw [List.getElem?_map, hcall, Option.map_some]

theorem getElem?_holdings_of_keeps {w : Nat} (h : s.Keeps i w) :
    ∃ command?, (s.calls.map Call.holding)[i]? = some (command?, some w) := by
  obtain ⟨call, hcall, hw⟩ := h
  exact ⟨call.request.awaited?, by rw [getElem?_holdings hcall, Call.holding, hw]⟩

theorem eq_of_keeps (h : s.WaitersSound) {j w : Nat} (hi : s.Keeps i w) (hj : s.Keeps j w) :
    i = j := by
  obtain ⟨c?, hi⟩ := getElem?_holdings_of_keeps hi
  obtain ⟨d?, hj⟩ := getElem?_holdings_of_keeps hj
  exact h.unique i j c? d? w hi hj

/-- A call that still has what it had. -/
theorem modify_same (h : s.WaitersSound) (hcall : s.calls[i]? = some call) {f : Call → Call}
    (hf : (f call).holding = call.holding) :
    Accounted s.outstanding s.replies ((s.calls.modify i f).map Call.holding) := by
  have hget := getElem?_holdings hcall
  obtain ⟨hlt, hget⟩ := List.getElem?_eq_some_iff.1 hget
  rw [map_modify _ _ hcall, hf, ← hget, List.set_getElem_self hlt]
  exact h

/-- A call that gets what it needs to wait with. -/
theorem modify_claims (h : s.WaitersSound) (hcall : s.calls[i]? = some call)
    (hstage : call.stage = .inLine) {bytes : List UInt8} {outstanding : Outstanding}
    {waiter : Option Nat} (hclaims : s.Claims call.request bytes outstanding waiter) {stage : Stage}
    (hwaiter : stage.waiter? = waiter) :
    Accounted outstanding s.replies ((s.calls.modify i (·.atStage stage)).map Call.holding) := by
  have hget := getElem?_holdings hcall
  rw [map_modify _ _ hcall]
  cases hclaims with
  | nothing hnone =>
    simp only [Call.holding, Call.request_atStage, Call.stage_atStage, hstage, hwaiter] at hget ⊢
    exact h.letGo_none hget
  | waiter hcommand hr =>
    simp only [Call.holding, Call.request_atStage, Call.stage_atStage, hstage, hwaiter,
      hcommand] at hget ⊢
    exact h.claim hget hr

/-- A call that lets go of its waiter, if it keeps one. -/
theorem modify_over (h : s.WaitersSound) (hcall : s.calls[i]? = some call) {stage : Stage}
    (hwaiter : stage.waiter? = none) :
    Accounted (withoutWaiter s.outstanding call.stage) s.replies
      ((s.calls.modify i (·.atStage stage)).map Call.holding) := by
  have hget := getElem?_holdings hcall
  rw [map_modify _ _ hcall]
  simp only [Call.holding, Call.request_atStage, Call.stage_atStage, hwaiter] at hget ⊢
  unfold withoutWaiter
  rcases hw : call.stage.waiter? with _ | w
  · rw [hw] at hget
    exact h.letGo_none hget
  · rw [hw] at hget
    exact h.letGo hget

theorem move (h : s.WaitersSound) (hmove : Move i s t) : t.WaitersSound := by
  cases hmove with
  | enter request deadline hi =>
    unfold WaitersSound
    rw [List.map_append]
    exact Accounted.enter h
  | queue hcall hstage hturn hlive hclaims hopen hroom hready =>
    exact h.modify_claims hcall hstage hclaims (Stage.waiter?_queued ..)
  | block hcall hstage hturn hlive hclaims hopen hroom =>
    exact h.modify_claims hcall hstage hclaims rfl
  | refuse bytes hcall hstage hturn hlive hclaims hclosed =>
    exact h.modify_claims hcall hstage hclaims rfl
  | retry hcall hstage hopen hgranted hready =>
    refine h.modify_same hcall ?_
    rw [Call.holding, Call.holding, Call.request_atStage, Call.stage_atStage,
      Stage.waiter?_queued, hstage]
    rfl
  | expect hcall hstage hreceipt hreply =>
    refine h.modify_same hcall ?_
    simp [Call.holding, hstage, Stage.waiter?]
  | await hcall hstage =>
    refine h.modify_same hcall ?_
    simp [Call.holding, hstage, Stage.waiter?]
  | waitForPump hcall hstage hrequest hrun =>
    refine h.modify_same hcall ?_
    simp [Call.holding, hstage, Stage.waiter?]
  | finish hcall hgoing hover hready =>
    exact h.modify_over hcall (Stage.waiter?_eq_none_of_isOver (isOver_of_finished hover))
  | hush hstopped hready => exact h.close .dead
  | conclude hpump hrun hstops hready => exact h.close _
  | _ => exact h

theorem route (h : s.WaitersSound) (frame : Frame) : (s.route frame).WaitersSound := by
  unfold Session.route
  split
  · exact h
  · rename_i m hm
    split
    · exact h
    · rcases ho : s.outstanding.oldest? frame.id with _ | w
      · rw [Outstanding.offer_of_none ho]
        exact h.offered _
      · rw [Outstanding.offer_of_some ho]
        dsimp only
        obtain ⟨ready, heq, -⟩ := tell_eq
          { s with outstanding := { s.outstanding.remove w.id with
              offered := s.outstanding.offered ++ [(frame.id, m)] } } w.id (.ok m)
        rw [heq]
        exact (h.take ho m).offered _

theorem moves (h : s.WaitersSound) (hmoves : Moves i hs s t) : t.WaitersSound := by
  induction hmoves with
  | refl s => exact h
  | move hmove hrest ih => exact ih (h.move hmove)
  | route hrun hrest ih => exact ih (h.route _)

theorem ofSettings {settings : Settings} (h : ofSettings settings = .ok s) : s.WaitersSound := by
  obtain rfl := eq_of_ofSettings h
  exact Accounted.nil

theorem of_reachable (h : s.Reachable) : s.WaitersSound :=
  h.induction (fun _ _ => ofSettings) (fun _ _ h => h) fun _ _ _ _ h => h.moves

end WaitersSound

end Session

end BleHost
