import BleHost.Proofs.Session.Steps

/-!
# How calls go on

A call is at a stage that suits its request (`Call.IsFit`). From one session to a later one
(`Later`) it stays what it was asked for, keeps its waiter until it is over, and is then changed no
more; numbers of waiters that were given out are not given out again, and who once stopped waiting
does not wait again.
-/

namespace BleHost

/-- Whether a call is at a stage that suits its request. -/
def Call.IsFit (c : Call) : Prop :=
  match c.stage with
  | .forSlot _ waiter | .forWrite _ waiter => waiter.isSome = c.request.awaited?.isSome
  | .forReply _ => c.request.awaited?.isSome = true
  | .held _ _ => ∃ command, c.request = .initiate command
  | .forPump => c.request = .shutdown
  | .inLine | .ended _ _ | .dropped => True

theorem Call.isFit_queued {request : Request} {deadline : Option Nat} {waiter : Option Nat}
    (h : waiter.isSome = request.awaited?.isSome) (ticket : Nat) :
    IsFit ⟨request, deadline, .queued request ticket waiter⟩ := by
  cases request with
  | initiate command =>
    cases waiter with
    | none => exact h
    | some waiter => exact ⟨command, rfl⟩
  | _ => exact h

@[simp] theorem Stage.waiter?_queued (request : Request) (ticket : Nat) (waiter : Option Nat) :
    (Stage.queued request ticket waiter).waiter? = waiter := by
  cases request <;> cases waiter <;> rfl

@[simp] theorem Stage.isOver_queued (request : Request) (ticket : Nat) (waiter : Option Nat) :
    (Stage.queued request ticket waiter).isOver = false := by
  cases request <;> cases waiter <;> rfl

theorem Stage.queued_ne_inLine (request : Request) (ticket : Nat) (waiter : Option Nat) :
    Stage.queued request ticket waiter ≠ .inLine := by
  cases request <;> cases waiter <;> exact nofun

theorem Stage.waiter?_eq_none_of_isOver {stage : Stage} (h : stage.isOver = true) :
    stage.waiter? = none := by
  cases stage <;> first | rfl | cases h

theorem Outstanding.register_eq_some {o o' : Outstanding} {waiter : Nat}
    {expects : Identity} :
    o.register expects = some (waiter, o') ↔ o.closed = false ∧ waiter = o.lastId + 1 ∧
      o' = { o with
        lastId := o.lastId + 1
        waiters := o.waiters ++ [⟨o.lastId + 1, expects⟩] } := by
  unfold register
  split
  · rename_i hclosed
    simp [hclosed]
  · rename_i hopen
    simp only [Option.some.injEq, Prod.mk.injEq]
    constructor
    · rintro ⟨rfl, rfl⟩
      exact ⟨by simpa using hopen, rfl, rfl⟩
    · rintro ⟨-, rfl, rfl⟩
      exact ⟨rfl, rfl⟩

/-! ### Changing a list at one place -/

section Lists

variable {α : Type} {l : List α} {i j : Nat} {a b : α}

/-- An element afterwards is the one that was put there, or was there before. -/
theorem getElem?_set_cases (h : (l.set i a)[j]? = some b) :
    j = i ∧ b = a ∨ j ≠ i ∧ l[j]? = some b := by
  by_cases hij : i = j
  · subst hij
    rw [List.getElem?_set] at h
    simp only [if_true] at h
    split at h
    · exact .inl ⟨rfl, (Option.some.inj h).symm⟩
    · cases h
  · rw [List.getElem?_set_ne hij] at h
    exact .inr ⟨fun he => hij he.symm, h⟩

/-- An element afterwards has just been added, or was there before. -/
theorem getElem?_append_cases (h : (l ++ [a])[j]? = some b) :
    j = l.length ∧ b = a ∨ l[j]? = some b := by
  rcases Nat.lt_or_ge j l.length with hlt | hge
  · rw [List.getElem?_append_left hlt] at h
    exact .inr h
  · rw [List.getElem?_append_right hge] at h
    obtain ⟨hlt, hget⟩ := List.getElem?_eq_some_iff.1 h
    have hzero : j - l.length = 0 := by simpa using hlt
    refine .inl ⟨by omega, ?_⟩
    rw [← hget]
    simp

end Lists

namespace Session

variable {i j : Nat} {s t u : Session} {call call' : Call} {hs : List (Session × Frame)}

/-! ### Changing one call -/

theorem getElem?_modify_self (hcall : s.calls[i]? = some call) (f : Call → Call) :
    (s.calls.modify i f)[i]? = some (f call) := by
  simp [hcall]

theorem getElem?_modify_of_ne (h : i ≠ j) (f : Call → Call) :
    (s.calls.modify i f)[j]? = s.calls[j]? := by
  simp [h]

/-- A call afterwards is the one that was changed, or was there before. -/
theorem getElem?_modify_cases (hcall : s.calls[i]? = some call) {f : Call → Call}
    (h : (s.calls.modify i f)[j]? = some call') :
    j = i ∧ call' = f call ∨ j ≠ i ∧ s.calls[j]? = some call' := by
  by_cases hij : i = j
  · subst hij
    rw [getElem?_modify_self hcall] at h
    exact .inl ⟨rfl, (Option.some.inj h).symm⟩
  · rw [getElem?_modify_of_ne hij] at h
    exact .inr ⟨fun he => hij he.symm, h⟩

/-- Moves that concern no call leave all calls as they are. -/
theorem Move.calls_eq (hmove : Move i s t) (hi : s.calls.length < i) : t.calls = s.calls := by
  have hnone : ∀ {call : Call} {stages : Prop}, s.calls[i]? = some call → stages := by
    intro call stages hcall
    have hlt := (List.getElem?_eq_some_iff.1 hcall).1
    omega
  cases hmove with
  | enter request deadline he => omega
  | queue hcall hstage hturn hlive hclaims hopen hroom hready => exact hnone hcall
  | block hcall hstage hturn hlive hclaims hopen hroom => exact hnone hcall
  | refuse bytes hcall hstage hturn hlive hclaims hclosed => exact hnone hcall
  | retry hcall hstage hopen hgranted hready => exact hnone hcall
  | expect hcall hstage hreceipt hreply => exact hnone hcall
  | await hcall hstage => exact hnone hcall
  | waitForPump hcall hstage hrequest hrun => exact hnone hcall
  | finish hcall hgoing hover hready => exact hnone hcall
  | _ => rfl

theorem Moves.calls_eq (hmoves : Moves i hs s t) (hi : s.calls.length < i) : t.calls = s.calls := by
  induction hmoves with
  | refl s => rfl
  | move hmove hrest ih =>
    have heq := hmove.calls_eq hi
    exact (ih (by rwa [heq])).trans heq
  | @route hs s u frame hrun hrest ih =>
    have heq := calls_route s frame
    exact (ih (by rwa [heq])).trans heq

theorem calls_takeDownIfUnused (s : Session) : s.takeDownIfUnused.calls = s.calls :=
  (moves_takeDownIfUnused (s.calls.length + 1) s).calls_eq (Nat.lt_succ_self _)

/-- A move that concerns one call leaves the others as they are. -/
theorem Move.call_of_ne (hmove : Move i s t) (hij : i ≠ j) (hcall : s.calls[j]? = some call) :
    t.calls[j]? = some call := by
  have hmodify : ∀ f : Call → Call, (s.calls.modify i f)[j]? = some call := by
    intro f
    rw [getElem?_modify_of_ne hij, hcall]
  cases hmove with
  | enter request deadline he =>
    show (s.calls ++ _)[j]? = some call
    rw [List.getElem?_append_left (List.getElem?_eq_some_iff.1 hcall).1, hcall]
  | queue hcall hstage hturn hlive hclaims hopen hroom hready => exact hmodify _
  | block hcall hstage hturn hlive hclaims hopen hroom => exact hmodify _
  | refuse bytes hcall hstage hturn hlive hclaims hclosed => exact hmodify _
  | retry hcall hstage hopen hgranted hready => exact hmodify _
  | expect hcall hstage hreceipt hreply => exact hmodify _
  | await hcall hstage => exact hmodify _
  | waitForPump hcall hstage hrequest hrun => exact hmodify _
  | finish hcall hgoing hover hready => exact hmodify _
  | _ => exact hcall

/-- Nor does it bring in a call anywhere else. -/
theorem Move.getElem?_of_ne (hmove : Move i s t) (hij : i ≠ j) : t.calls[j]? = s.calls[j]? := by
  rcases hcall : s.calls[j]? with _ | call
  · have hge : s.calls.length ≤ j := List.getElem?_eq_none_iff.1 hcall
    refine List.getElem?_eq_none ?_
    cases hmove with
    | enter request deadline he =>
      simp only [List.length_append, List.length_singleton]
      omega
    | _ => simpa using hge
  · exact hmove.call_of_ne hij hcall

theorem Moves.call_of_ne (hmoves : Moves i hs s t) (hij : i ≠ j)
    (hcall : s.calls[j]? = some call) : t.calls[j]? = some call := by
  induction hmoves with
  | refl s => exact hcall
  | move hmove hrest ih => exact ih (hmove.call_of_ne hij hcall)
  | route hrun hrest ih => exact ih (by rwa [calls_route])

theorem Moves.getElem?_of_ne (hmoves : Moves i hs s t) (hij : i ≠ j) :
    t.calls[j]? = s.calls[j]? := by
  induction hmoves with
  | refl s => rfl
  | move hmove hrest ih => exact ih.trans (hmove.getElem?_of_ne hij)
  | route hrun hrest ih => rw [ih, calls_route]

/-- Ending a call puts it at its last stage, and leaves the other calls as they are. -/
theorem calls_finish (s : Session) (i : Nat) (result : Except Error Outcome) :
    (s.finish i result).calls = s.calls.modify i (·.atStage (.ended s.now result)) := by
  rcases hcall : s.calls[i]? with _ | call
  · have hstage : s.stage? i = none := by rw [stage?, hcall, Option.map_none]
    rw [finish, hstage, List.modify_eq_self (List.getElem?_eq_none_iff.1 hcall)]
  · obtain ⟨ready, heq, -⟩ := relinquish_eq s i call.stage
    simp only [finish, stage?_eq hcall]
    rw [calls_takeDownIfUnused, setStage_eq, heq]

/-! ### Stages suit requests -/

/-- All calls are at stages that suit them. -/
def CallsFit (s : Session) : Prop := ∀ (j : Nat) (call : Call), s.calls[j]? = some call → call.IsFit

theorem Claims.isSome_eq {request : Request} {bytes : List UInt8} {outstanding : Outstanding}
    {waiter : Option Nat} (h : s.Claims request bytes outstanding waiter) :
    waiter.isSome = request.awaited?.isSome := by
  cases h with
  | nothing hnone => rw [hnone]; rfl
  | waiter hcommand hr => rw [hcommand]; rfl

namespace CallsFit

theorem modify (h : s.CallsFit) (hcall : s.calls[i]? = some call) {f : Call → Call}
    (hf : (f call).IsFit) (j : Nat) (call' : Call)
    (hj : (s.calls.modify i f)[j]? = some call') : call'.IsFit := by
  rcases getElem?_modify_cases hcall hj with ⟨-, rfl⟩ | ⟨-, hj⟩
  · exact hf
  · exact h j call' hj

theorem move (h : s.CallsFit) (hmove : Move i s t) : t.CallsFit := by
  cases hmove with
  | enter request deadline hi =>
    intro j call hj
    rcases getElem?_append_cases hj with ⟨-, rfl⟩ | hj
    · exact trivial
    · exact h j call hj
  | queue hcall hstage hturn hlive hclaims hopen hroom hready =>
    exact h.modify hcall (Call.isFit_queued hclaims.isSome_eq _)
  | block hcall hstage hturn hlive hclaims hopen hroom =>
    exact h.modify hcall hclaims.isSome_eq
  | refuse bytes hcall hstage hturn hlive hclaims hclosed =>
    exact h.modify hcall hclaims.isSome_eq
  | retry hcall hstage hopen hgranted hready =>
    have hfit := h i _ hcall
    rw [Call.IsFit, hstage] at hfit
    exact h.modify hcall (Call.isFit_queued hfit _)
  | expect hcall hstage hreceipt hreply =>
    have hfit := h i _ hcall
    simp only [Call.IsFit, hstage, Option.isSome_some] at hfit
    refine h.modify hcall ?_
    exact hfit.symm
  | await hcall hstage =>
    have hfit := h i _ hcall
    rw [Call.IsFit, hstage] at hfit
    obtain ⟨command, hrequest⟩ := hfit
    refine h.modify hcall ?_
    rw [Call.IsFit, hrequest]
    rfl
  | waitForPump hcall hstage hrequest hrun => exact h.modify hcall hrequest
  | finish hcall hgoing hover hready =>
    refine h.modify hcall ?_
    rcases hover with rfl | ⟨result, rfl, -⟩
    · exact trivial
    · exact trivial
  | _ => exact h

theorem moves (h : s.CallsFit) (hmoves : Moves i hs s t) : t.CallsFit := by
  induction hmoves with
  | refl s => exact h
  | move hmove hrest ih => exact ih (h.move hmove)
  | route hrun hrest ih =>
    refine ih fun j call hj => h j call ?_
    rwa [calls_route] at hj

theorem ofSettings {settings : Settings} (h : ofSettings settings = .ok s) : s.CallsFit := by
  obtain rfl := eq_of_ofSettings h
  intro j call hj
  simp at hj

theorem of_reachable (h : s.Reachable) : s.CallsFit :=
  h.induction (fun _ _ => ofSettings) (fun _ _ h => h) fun _ _ _ _ h => h.moves

end CallsFit

/-! ### From one session to a later one -/

/-- A call keeps a waiter. -/
def Keeps (s : Session) (j waiter : Nat) : Prop :=
  ∃ call : Call, s.calls[j]? = some call ∧ call.stage.waiter? = some waiter

/-- What a session has to do with one that it has become. -/
structure Later (s t : Session) : Prop where
  lastId_le : s.outstanding.lastId ≤ t.outstanding.lastId
  waits : ∀ w ∈ t.outstanding.waiters, w ∈ s.outstanding.waiters ∨ s.outstanding.lastId < w.id
  call : ∀ (j : Nat) (call : Call), s.calls[j]? = some call → ∃ call' : Call,
    t.calls[j]? = some call' ∧ call'.request = call.request ∧
      (call.stage.isOver = true → call' = call) ∧
      ∀ w, call.stage.waiter? = some w →
        call'.stage.waiter? = some w ∨ call'.stage.isOver = true
  kept : ∀ j w, t.Keeps j w → s.Keeps j w ∨ s.outstanding.lastId < w

namespace Later

theorem of_calls_eq (hcalls : t.calls = s.calls)
    (hlast : s.outstanding.lastId ≤ t.outstanding.lastId)
    (hwaits : t.outstanding.waiters ⊆ s.outstanding.waiters) : Later s t where
  lastId_le := hlast
  waits := fun _ hw => .inl (hwaits hw)
  call := fun _ call hj => ⟨call, hcalls ▸ hj, rfl, fun _ => rfl, fun _ hw => .inl hw⟩
  kept := fun _ _ ⟨call, hj, hw⟩ => .inl ⟨call, hcalls ▸ hj, hw⟩

theorem refl (s : Session) : Later s s := of_calls_eq rfl (Nat.le_refl _) (List.Subset.refl _)

theorem trans (h : Later s t) (h' : Later t u) : Later s u where
  lastId_le := Nat.le_trans h.lastId_le h'.lastId_le
  waits := by
    intro w hw
    rcases h'.waits w hw with hw | hlt
    · exact h.waits w hw
    · exact .inr (Nat.lt_of_le_of_lt h.lastId_le hlt)
  call := by
    intro j call hj
    obtain ⟨call', hj', hrequest, hover, hkeep⟩ := h.call j call hj
    obtain ⟨call'', hj'', hrequest', hover', hkeep'⟩ := h'.call j call' hj'
    refine ⟨call'', hj'', hrequest'.trans hrequest, ?_, ?_⟩
    · intro ho
      obtain rfl := hover ho
      exact hover' ho
    · intro w hw
      rcases hkeep w hw with hw | ho
      · exact hkeep' w hw
      · obtain rfl := hover' ho
        exact .inr ho
  kept := by
    intro j w hw
    rcases h'.kept j w hw with hw | hlt
    · exact h.kept j w hw
    · exact .inr (Nat.lt_of_le_of_lt h.lastId_le hlt)

/-- One call has gone on. -/
theorem modify (hcall : s.calls[i]? = some call) (hgoing : call.stage.isOver = false)
    {f : Call → Call} (hcalls : t.calls = s.calls.modify i f)
    (hrequest : (f call).request = call.request)
    (hlast : s.outstanding.lastId ≤ t.outstanding.lastId)
    (hwaits : ∀ w ∈ t.outstanding.waiters,
      w ∈ s.outstanding.waiters ∨ s.outstanding.lastId < w.id)
    (hkeep : ∀ w, call.stage.waiter? = some w →
      (f call).stage.waiter? = some w ∨ (f call).stage.isOver = true)
    (hkept : ∀ w, (f call).stage.waiter? = some w →
      call.stage.waiter? = some w ∨ s.outstanding.lastId < w) : Later s t where
  lastId_le := hlast
  waits := hwaits
  call := by
    intro j call' hj
    by_cases hij : i = j
    · subst hij
      obtain rfl : call = call' := Option.some.inj (hcall.symm.trans hj)
      refine ⟨f call, by rw [hcalls, getElem?_modify_self hcall], hrequest, ?_, hkeep⟩
      intro ho
      rw [hgoing] at ho
      cases ho
    · exact ⟨call', by rw [hcalls, getElem?_modify_of_ne hij, hj], rfl, fun _ => rfl,
        fun w hw => .inl hw⟩
  kept := by
    rintro j w ⟨call', hj, hw⟩
    rw [hcalls] at hj
    rcases getElem?_modify_cases hcall hj with ⟨rfl, rfl⟩ | ⟨-, hj⟩
    · exact (hkept w hw).imp_left fun hw => ⟨call, hcall, hw⟩
    · exact .inl ⟨call', hj, hw⟩

/-- One call has gone on, and keeps what it kept. -/
theorem modify_same (hcall : s.calls[i]? = some call) (hgoing : call.stage.isOver = false)
    {f : Call → Call} (hcalls : t.calls = s.calls.modify i f)
    (hrequest : (f call).request = call.request) (ho : t.outstanding = s.outstanding)
    (hwaiter : (f call).stage.waiter? = call.stage.waiter?) : Later s t := by
  refine modify hcall hgoing hcalls hrequest ?_ ?_ ?_ ?_
  · exact Nat.le_of_eq (congrArg Outstanding.lastId ho.symm)
  · rw [ho]
    exact fun _ hw => .inl hw
  · rw [hwaiter]
    exact fun _ hw => .inl hw
  · rw [hwaiter]
    exact fun _ hw => .inl hw

/-- A call has got what it needs to wait with. -/
theorem claims (hcall : s.calls[i]? = some call) (hstage : call.stage = .inLine)
    {bytes : List UInt8} {outstanding : Outstanding} {waiter : Option Nat}
    (hclaims : s.Claims call.request bytes outstanding waiter) {stage : Stage}
    (hwaiter : stage.waiter? = waiter) (ht : t.outstanding = outstanding)
    (hcalls : t.calls = s.calls.modify i (·.atStage stage)) : Later s t := by
  have hgoing : call.stage.isOver = false := by rw [hstage]; rfl
  have hnone : call.stage.waiter? = none := by rw [hstage]; rfl
  cases hclaims with
  | nothing h =>
    refine modify hcall hgoing hcalls rfl ?_ ?_ (by simp [hnone]) (by simp [hwaiter])
    · exact Nat.le_of_eq (congrArg Outstanding.lastId ht.symm)
    · intro w hw
      rw [ht] at hw
      exact .inl hw
  | waiter h hr =>
    obtain ⟨-, rfl, ho⟩ := Outstanding.register_eq_some.1 hr
    refine modify hcall hgoing hcalls rfl ?_ ?_ (by simp [hnone]) ?_
    · rw [ht, ho]
      exact Nat.le_succ _
    · intro w hw
      rw [ht, ho] at hw
      rcases List.mem_append.1 hw with hw | hw
      · exact .inl hw
      · rw [List.mem_singleton.1 hw]
        exact .inr (Nat.lt_succ_self _)
    · intro w hw
      rw [Call.stage_atStage, hwaiter] at hw
      rw [← Option.some.inj hw]
      exact .inr (Nat.lt_succ_self _)

/-- A move makes a session a later one. -/
theorem of_move (hmove : Move i s t) : Later s t := by
  cases hmove with
  | enter request deadline hi =>
    refine ⟨Nat.le_refl _, fun _ hw => .inl hw, ?_, ?_⟩
    · intro j call hj
      have hlt := (List.getElem?_eq_some_iff.1 hj).1
      exact ⟨call, by rw [List.getElem?_append_left hlt, hj], rfl, fun _ => rfl,
        fun _ hw => .inl hw⟩
    · rintro j w ⟨call, hj, hw⟩
      rcases getElem?_append_cases hj with ⟨-, rfl⟩ | hj
      · cases hw
      · exact .inl ⟨call, hj, hw⟩
  | queue hcall hstage hturn hlive hclaims hopen hroom hready =>
    exact claims hcall hstage hclaims (Stage.waiter?_queued ..) rfl rfl
  | block hcall hstage hturn hlive hclaims hopen hroom =>
    exact claims hcall hstage hclaims rfl rfl rfl
  | refuse bytes hcall hstage hturn hlive hclaims hclosed =>
    exact claims hcall hstage hclaims rfl rfl rfl
  | retry hcall hstage hopen hgranted hready =>
    refine modify_same hcall (by rw [hstage]; rfl) rfl rfl rfl ?_
    rw [Call.stage_atStage, Stage.waiter?_queued, hstage]
    rfl
  | expect hcall hstage hreceipt hreply =>
    exact modify_same hcall (by rw [hstage]; rfl) rfl rfl rfl (by rw [hstage]; rfl)
  | await hcall hstage =>
    exact modify_same hcall (by rw [hstage]; rfl) rfl rfl rfl (by rw [hstage]; rfl)
  | waitForPump hcall hstage hrequest hrun =>
    exact modify_same hcall (by rw [hstage]; rfl) rfl rfl rfl (by rw [hstage]; rfl)
  | finish hcall hgoing hover hready =>
    refine modify hcall hgoing rfl rfl ?_ ?_ ?_ ?_
    · unfold withoutWaiter
      split
      · exact Nat.le_refl _
      · exact Nat.le_refl _
    · intro w hw
      unfold withoutWaiter at hw
      split at hw
      · exact .inl (List.mem_filter.1 hw).1
      · exact .inl hw
    · exact fun w hw => .inr (isOver_of_finished hover)
    · intro w hw
      rw [Call.stage_atStage, Stage.waiter?_eq_none_of_isOver (isOver_of_finished hover)] at hw
      cases hw
  | hush hstopped hready =>
    exact of_calls_eq rfl (Nat.le_refl _) (List.nil_subset _)
  | conclude hpump hrun hstops hready =>
    exact of_calls_eq rfl (Nat.le_refl _) (List.nil_subset _)
  | _ => exact of_calls_eq rfl (Nat.le_refl _) (List.Subset.refl _)

/-- A call stays what it was asked for. -/
theorem request_eq (h : Later s t) (hcall : s.calls[i]? = some call) {call' : Call}
    (hcall' : t.calls[i]? = some call') : call'.request = call.request := by
  obtain ⟨call'', hcall'', hrequest, -⟩ := h.call i call hcall
  rw [Option.some.inj (hcall'.symm.trans hcall''), hrequest]

end Later

/-- A call that is over stays as it is. -/
theorem Moves.call_of_over (hmoves : Moves i hs s t) (hcall : s.calls[j]? = some call)
    (hover : call.stage.isOver = true) : t.calls[j]? = some call := by
  induction hmoves with
  | refl s => exact hcall
  | move hmove hrest ih =>
    obtain ⟨call', hcall', -, hsame, -⟩ := (Later.of_move hmove).call j call hcall
    obtain rfl := hsame hover
    exact ih hcall'
  | route hrun hrest ih => exact ih (by rwa [calls_route])

end Session

end BleHost
