import BleHost.Proofs.Session.Ranks
import Mathlib.Data.List.Forall2
import Mathlib.Data.List.Sort

/-!
# Questions and answers find each other

If callers get their slots in order and the module answers in order, then at every moment the
questions that have not been answered are, one by one, those of the calls that expect a response
(`Books`), as long as nobody gives up on a frame that the module has or will get. So each answer
completes the call whose question it answers (`paired`).
-/

namespace BleHost

namespace Session

variable {i j : Nat} {s t u : Session} {call : Call} {v w k : Nat} {f : Frame} {m : Message}
  {o : Outgoing} {r : Option (Except Error Unit)} {outcome : Except Error Unit}
  {past : List (Session × Transfer)} {actions : List Action} {uses : Identity → Bool}
  {q : Session × Outgoing} {x : Waiter}

/-! ### Who expects a response -/

/-- The waiters of calls of whose frames such a thing has become. -/
def waitersWith (s : Session) (p : Option (Except Error Unit) → Bool) : List Waiter :=
  s.outstanding.waiters.filter fun x =>
    s.calls.any fun call => call.stage.waiter? = some x.id && p (s.written? call)

/-- The waiters of calls whose frames have been written. -/
def expected (s : Session) : List Waiter := s.waitersWith (· matches some (.ok ()))

/-- The waiters of calls whose frames have been refused. -/
def spurned (s : Session) : List Waiter := s.waitersWith (· matches some (.error _))

/-- The waiters that were given up before they were told anything. -/
def gone (s : Session) : List Nat :=
  (List.range' 1 s.outstanding.lastId).filter fun w =>
    s.outstanding.waiters.all (·.id ≠ w) && s.replies.all (·.1 ≠ w)

instance (s : Session) : Decidable s.IsRunning :=
  inferInstanceAs (Decidable (s.cancelled = false ∧ s.pumpState.isOver = false))

/-- The waiters of those whose frames were refused. -/
def refusals (log : List (Session × Transfer)) : List Nat :=
  log.flatMap fun
    | (s, .sent o (.error _)) =>
      (s.calls.filter (·.stage.place = .frame o.ticket)).filterMap (·.stage.waiter?)
    | _ => []

theorem mem_waitersWith {p : Option (Except Error Unit) → Bool} :
    x ∈ s.waitersWith p ↔
      x ∈ s.outstanding.waiters ∧ ∃ i r, s.Stands i x.id r ∧ p r = true := by
  unfold waitersWith
  rw [List.mem_filter, List.any_eq_true]
  refine and_congr_right fun _ => ?_
  constructor
  · rintro ⟨call, hmem, hcall⟩
    obtain ⟨i, hget⟩ := List.mem_iff_getElem?.1 hmem
    simp only [Bool.and_eq_true, decide_eq_true_eq] at hcall
    exact ⟨i, _, ⟨call, hget, hcall.1, rfl⟩, hcall.2⟩
  · rintro ⟨i, r, ⟨call, hget, hw, rfl⟩, hp⟩
    exact ⟨call, List.mem_of_getElem? hget, by simp [hw, hp]⟩

theorem mem_expected :
    x ∈ s.expected ↔ x ∈ s.outstanding.waiters ∧ ∃ i, s.Stands i x.id (some (.ok ())) := by
  unfold expected
  rw [mem_waitersWith]
  refine and_congr_right fun _ => exists_congr fun i => ?_
  constructor
  · rintro ⟨r, hst, hp⟩
    match r, hp with
    | some (.ok ()), _ => exact hst
  · exact fun hst => ⟨_, hst, rfl⟩

theorem mem_spurned :
    x ∈ s.spurned ↔ x ∈ s.outstanding.waiters ∧ ∃ i e, s.Stands i x.id (some (.error e)) := by
  unfold spurned
  rw [mem_waitersWith]
  refine and_congr_right fun _ => exists_congr fun i => ?_
  constructor
  · rintro ⟨r, hst, hp⟩
    match r, hp with
    | some (.error e), _ => exact ⟨e, hst⟩
  · exact fun ⟨e, hst⟩ => ⟨_, hst, rfl⟩

theorem mem_gone :
    w ∈ s.gone ↔ 0 < w ∧ w ≤ s.outstanding.lastId ∧ (∀ x ∈ s.outstanding.waiters, x.id ≠ w) ∧
      ∀ reply ∈ s.replies, reply.1 ≠ w := by
  unfold gone
  rw [List.mem_filter, List.mem_range'_1, Bool.and_eq_true, List.all_eq_true, List.all_eq_true]
  simp only [decide_eq_true_eq]
  constructor
  · rintro ⟨hrange, hwaits, htold⟩
    exact ⟨by omega, by omega, hwaits, htold⟩
  · rintro ⟨hpos, hle, hwaits, htold⟩
    exact ⟨by omega, hwaits, htold⟩

theorem refusals_append (past later : List (Session × Transfer)) :
    refusals (past ++ later) = refusals past ++ refusals later := List.flatMap_append

/-- The waiters of whoever sent a frame that is refused. -/
theorem mem_refusals_sent (e : Error) :
    w ∈ refusals [(s, .sent o (.error e))] ↔ ∃ i, s.Sends i o.ticket ∧ s.Keeps i w := by
  unfold refusals
  rw [List.flatMap_singleton, List.mem_filterMap]
  constructor
  · rintro ⟨call, hmem, hw⟩
    obtain ⟨hmem, hticket⟩ := List.mem_filter.1 hmem
    obtain ⟨i, hget⟩ := List.mem_iff_getElem?.1 hmem
    exact ⟨i, ⟨call, hget, by simpa using hticket⟩, call, hget, hw⟩
  · rintro ⟨i, ⟨call, hget, hticket⟩, call', hget', hw⟩
    obtain rfl := Option.some.inj (hget.symm.trans hget')
    exact ⟨call, List.mem_filter.2 ⟨List.mem_of_getElem? hget, by simpa using hticket⟩, hw⟩

theorem isAnswer_iff : isAnswer uses s f = true ↔
    f.id.isEvent = false ∧ uses f.id = true ∧ ∃ m, s.settings.catalogue.decode f = .ok m := by
  unfold isAnswer
  cases s.settings.catalogue.decode f <;> simp [Except.toOption]

/-- Two rows of waiters, each in the order of their numbers, are the same if the same are in
them. -/
theorem eq_of_sorted {l l' : List Waiter} (h : l.Pairwise fun x y => x.id < y.id)
    (h' : l'.Pairwise fun x y => x.id < y.id) (hmem : ∀ x, x ∈ l ↔ x ∈ l') : l = l' := by
  have hirrefl : Std.Irrefl fun x y : Waiter => x.id < y.id := ⟨fun x => Nat.lt_irrefl x.id⟩
  have hanti : Std.Antisymm fun x y : Waiter => x.id < y.id :=
    ⟨fun _ _ hlt hgt => absurd hlt (Nat.lt_asymm hgt)⟩
  exact h.eq_of_mem_iff h' hmem

theorem Sound.sorted_expected (h : s.Sound) : s.expected.Pairwise fun x y => x.id < y.id :=
  h.waiters.sorted.sublist List.filter_sublist

/-! ### The books -/

/-- A question was put by the call that keeps a waiter, and is what the waiter waits to hear of. -/
def Asked (q : Session × Outgoing) (x : Waiter) : Prop :=
  ∃ i, q.1.Sends i q.2.ticket ∧ q.1.Keeps i x.id ∧ q.2.identity? = some x.expects

/-- What has been asked and not been answered, and who expects the answers. -/
structure Books (uses : Identity → Bool) (past : List (Session × Transfer)) (s : Session) :
    Prop where
  pos : ∀ i w r, s.Stands i w r → 0 < w
  /-- Those who have been refused are known. -/
  refused : ∀ w ∈ refusals past, w ≤ s.outstanding.lastId ∧
    ∀ i r, s.Stands i w r → ∃ e, r = some (.error e)
  /-- Nobody is told anything before his frame has been dealt with. -/
  waiting : ∀ i w, s.Stands i w none → ∃ x ∈ s.outstanding.waiters, x.id = w
  /-- Behind every frame in the queue there is a call. -/
  owned : ∀ o ∈ s.outbound.queued, ∃ i w, s.Sends i o.ticket ∧ s.Stands i w none
  asked : List.Forall₂ Asked (unanswered uses past) s.expected

/-- Waiters that have been given up stay so. -/
theorem Deeds.gone_subset (h : Deeds i s t) : s.gone ⊆ t.gone := by
  induction h with
  | refl s => exact List.Subset.refl _
  | step hs hdeed hreceipts hreplies hlater ht hrest ih =>
    refine List.Subset.trans ?_ ih
    intro w hw
    obtain ⟨hpos, hle, hwaits, htold⟩ := mem_gone.1 hw
    refine mem_gone.2 ⟨hpos, Nat.le_trans hle hlater.lastId_le, ?_, by rwa [hreplies]⟩
    intro x hx
    rcases hlater.waits x hx with hx | hlt
    · exact hwaits x hx
    · omega

/-- Whoever has a ticket awaits a response, if nobody sends for anything else. -/
theorem Sound.exists_stands_of_sends (h : s.Sound)
    (hcalls : ∀ call ∈ s.calls, call.request.awaited?.isSome = true ∨ call.request = .shutdown)
    (hsends : s.Sends i k) : ∃ w r, s.Stands i w r := by
  obtain ⟨call, hcall, hticket⟩ := hsends
  have hawaited : call.request.awaited?.isSome = true := by
    rcases hcalls call (List.mem_of_getElem? hcall) with hawaited | hshutdown
    · exact hawaited
    · exact absurd hshutdown (h.tickets.sends i call hcall (by rw [hticket]; exact nofun))
  have hfit := h.fit i call hcall
  have hwaiter : ∃ w, call.stage.waiter? = some w := by
    unfold Call.IsFit at hfit
    cases hstage : call.stage with
    | forWrite ticket waiter =>
      rw [hstage, hawaited] at hfit
      exact Option.isSome_iff_exists.1 hfit
    | held ticket waiter => exact ⟨waiter, rfl⟩
    | _ =>
      rw [hstage] at hticket
      cases hticket
  obtain ⟨w, hw⟩ := hwaiter
  exact ⟨w, _, call, hcall, hw, rfl⟩

namespace Books

/-- Whoever gives up while he waits has been refused. -/
theorem refused_of_leaves (h : Books uses past s) (hs : s.Sound)
    (hwaits : t.outstanding = s.outstanding.remove x.id) (hreplies : t.replies = s.replies)
    (hgone : ∀ w ∈ t.gone, w ∈ refusals past) (hx : x ∈ s.outstanding.waiters)
    (hst : s.Stands i x.id r) : ∃ e, r = some (.error e) := by
  refine (h.refused x.id (hgone _ (mem_gone.2 ⟨h.pos i _ r hst, ?_, ?_, ?_⟩))).2 i r hst
  · rw [hwaits]
    exact hs.le_lastId hst
  · intro y hy
    rw [hwaits] at hy
    simpa using (List.mem_filter.1 hy).2
  · rw [hreplies]
    exact hs.waiters.untold x hx

/-- Whoever has not been heard of still waits. -/
theorem waiting_of_turnover (h : Books uses past s) (hs : s.Sound) (hturn : Turnover i s t)
    (hst : t.Stands j w none) : ∃ x ∈ t.outstanding.waiters, x.id = w := by
  cases hturn with
  | same hstands hwaits =>
    rw [hwaits]
    exact h.waiting j w ((hstands j w none).1 hst)
  | joins expects hnew hfree hstands hwaits =>
    rw [hwaits]
    rcases (hstands j w none).1 hst with hst | ⟨-, rfl, -⟩
    · obtain ⟨x, hx, rfl⟩ := h.waiting j w hst
      exact ⟨x, List.mem_append_left _ hx, rfl⟩
    · exact ⟨_, List.mem_append_right _ (List.mem_singleton_self _), rfl⟩
  | leaves w' r' hleaving hstands hwaits =>
    rw [hwaits]
    obtain ⟨hst, hne⟩ := (hstands j w none).1 hst
    obtain ⟨x, hx, rfl⟩ := h.waiting j w hst
    refine ⟨x, List.mem_filter.2 ⟨hx, ?_⟩, rfl⟩
    have hother : x.id ≠ w' := fun he => hne (hs.eq_of_stands hst (he ▸ hleaving))
    simpa using hother

/-- A frame that was in the queue keeps its call, and a new one has its call from the start. -/
theorem owned_of_deed (h : Books uses past s) (hs : s.Sound) (ht : t.Sound) (hdeed : Deed i s t)
    (hreceipts : t.receipts = s.receipts) (hreplies : t.replies = s.replies)
    (hcalls : ∀ call ∈ t.calls, call.request.awaited?.isSome = true ∨ call.request = .shutdown)
    (hgone : ∀ w ∈ t.gone, w ∈ refusals past) (ho : o ∈ t.outbound.queued) :
    ∃ j w, t.Sends j o.ticket ∧ t.Stands j w none := by
  have hold : ∀ o ∈ s.outbound.queued, ∃ j w, t.Sends j o.ticket ∧ t.Stands j w none := by
    intro o ho
    obtain ⟨j, w, hsends, hst⟩ := h.owned o ho
    have hst' : t.Stands j w none := by
      cases hdeed.turnover hs hreceipts with
      | same hstands hwaits => exact (hstands j w none).2 hst
      | joins expects hnew hfree hstands hwaits => exact (hstands j w none).2 (.inl hst)
      | leaves w' r' hleaving hstands hwaits =>
        refine (hstands j w none).2 ⟨hst, ?_⟩
        rintro rfl
        obtain ⟨rfl, rfl⟩ := hleaving.eq hst
        obtain ⟨x, hx, rfl⟩ := h.waiting j w' hst
        obtain ⟨e, he⟩ := h.refused_of_leaves hs hwaits hreplies hgone hx hst
        cases he
    exact ⟨j, w, hdeed.sends hsends hst hst', hst'⟩
  rcases hdeed.queued_cases with hqueued | ⟨bytes, call, hqueued, hcall, hplace⟩
  · exact hold o (hqueued ▸ ho)
  · rcases List.mem_append.1 (hqueued ▸ ho) with ho' | ho'
    · exact hold o ho'
    · obtain rfl := List.mem_singleton.1 ho'
      have hsends : t.Sends i (s.outbound.lastTicket + 1) := ⟨call, hcall, hplace⟩
      obtain ⟨w, r, hst⟩ := ht.exists_stands_of_sends hcalls hsends
      obtain rfl := ht.unwritten ho hsends hst
      exact ⟨i, w, hsends, hst⟩

/-- Whoever expects a response goes on to do so. -/
theorem expected_of_turnover (h : Books uses past s) (hs : s.Sound) (ht : t.Sound)
    (hturn : Turnover i s t) (hreplies : t.replies = s.replies)
    (hgone : ∀ w ∈ t.gone, w ∈ refusals past) : t.expected = s.expected := by
  refine eq_of_sorted ht.sorted_expected hs.sorted_expected fun x => ?_
  rw [mem_expected, mem_expected]
  cases hturn with
  | same hstands hwaits =>
    rw [hwaits]
    exact and_congr_right fun _ => exists_congr fun j => hstands j x.id _
  | joins expects hnew hfree hstands hwaits =>
    rw [hwaits]
    constructor
    · rintro ⟨hx, j, hst⟩
      rcases (hstands j x.id _).1 hst with hst | ⟨-, -, hr⟩
      · rcases List.mem_append.1 hx with hx | hx
        · exact ⟨hx, j, hst⟩
        · rw [List.mem_singleton.1 hx] at hst
          exact absurd (hs.le_lastId hst) (Nat.not_succ_le_self _)
      · cases hr
    · rintro ⟨hx, j, hst⟩
      exact ⟨List.mem_append_left _ hx, j, (hstands j x.id _).2 (.inl hst)⟩
  | leaves w r hleaving hstands hwaits =>
    constructor
    · rintro ⟨hx, j, hst⟩
      rw [hwaits] at hx
      exact ⟨(List.mem_filter.1 hx).1, j, ((hstands j x.id _).1 hst).1⟩
    · rintro ⟨hx, j, hst⟩
      have hother : j ≠ i := by
        rintro rfl
        obtain ⟨rfl, rfl⟩ := hleaving.eq hst
        obtain ⟨e, he⟩ := h.refused_of_leaves hs hwaits hreplies hgone hx hst
        cases he
      have hne : x.id ≠ w := fun he => hother (hs.eq_of_stands hst (he ▸ hleaving))
      rw [hwaits]
      exact ⟨List.mem_filter.2 ⟨hx, by simpa using hne⟩, j, (hstands j x.id _).2 ⟨hst, hother⟩⟩

theorem deed (h : Books uses past s) (hs : s.Sound) (hdeed : Deed i s t)
    (hreceipts : t.receipts = s.receipts) (hreplies : t.replies = s.replies) (hlater : Later s t)
    (ht : t.Sound)
    (hcalls : ∀ call ∈ t.calls, call.request.awaited?.isSome = true ∨ call.request = .shutdown)
    (hgone : ∀ w ∈ t.gone, w ∈ refusals past) : Books uses past t := by
  have hturn := hdeed.turnover hs hreceipts
  refine ⟨?_, ?_, fun j w => h.waiting_of_turnover hs hturn,
    fun o ho => h.owned_of_deed hs ht hdeed hreceipts hreplies hcalls hgone ho, ?_⟩
  · intro j w r hst
    rcases hturn.stands_or_new hst with hst | ⟨-, rfl, -⟩
    · exact h.pos j w r hst
    · exact Nat.succ_pos _
  · intro w hw
    obtain ⟨hle, hrefused⟩ := h.refused w hw
    refine ⟨Nat.le_trans hle hlater.lastId_le, ?_⟩
    intro j r hst
    rcases hturn.stands_or_new hst with hst | ⟨-, rfl, -⟩
    · exact hrefused j r hst
    · omega
  · rw [h.expected_of_turnover hs ht hturn hreplies hgone]
    exact h.asked

theorem deeds (h : Books uses past s) (hs : s.Sound) (hdeeds : Deeds i s t)
    (hcalls : ∀ call ∈ t.calls, call.request.awaited?.isSome = true ∨ call.request = .shutdown)
    (hgone : ∀ w ∈ t.gone, w ∈ refusals past) : Books uses past t := by
  induction hdeeds with
  | refl s => exact h
  | step hs hdeed hreceipts hreplies hlater ht hrest ih =>
    refine ih (h.deed hs hdeed hreceipts hreplies hlater ht ?_ ?_) ht hcalls hgone
    · intro call hmem
      obtain ⟨call', hmem', hrequest⟩ := hrest.later.exists_call hmem
      rw [← hrequest]
      exact hcalls call' hmem'
    · exact fun w hw => hgone w (hrest.gone_subset hw)

/-- A frame that has been written joins those that have not been answered, behind them. -/
theorem expected_wrote (h : Books uses past s) (hs : s.Sound) (hrank : s.Ranked) (ht : t.Sound)
    (hwrote : Wrote o (.ok ()) s t) :
    ∃ x, Asked (s, o) x ∧ t.expected = s.expected ++ [x] := by
  have hmem : o ∈ s.outbound.queued := hwrote.queued ▸ List.mem_cons_self
  obtain ⟨i, w, hsends, hst⟩ := h.owned o hmem
  obtain ⟨x, hx, rfl⟩ := h.waiting i w hst
  refine ⟨x, ⟨i, hsends, hst.keeps, ?_⟩, ?_⟩
  · obtain ⟨call, hcall, hw, -⟩ := hst
    obtain ⟨command, hcommand, hexpects⟩ := hs.expects_eq hcall hw hx
    rw [hexpects]
    exact Outgoing.identity?_eq
      (hs.tickets.own o hmem i call command hcall ((sends_iff hcall).1 hsends) hcommand)
  · refine eq_of_sorted ht.sorted_expected ?_ fun y => ?_
    · refine List.pairwise_append.2 ⟨hs.sorted_expected, List.pairwise_singleton _ _, ?_⟩
      intro y hy z hz
      obtain ⟨-, j, hst'⟩ := mem_expected.1 hy
      rw [List.mem_singleton.1 hz]
      exact hrank.dealt j i y.id x.id _ hst' hst
    · rw [mem_expected, List.mem_append, mem_expected, List.mem_singleton, hwrote.outstanding]
      constructor
      · rintro ⟨hy, j, hst'⟩
        rcases (hwrote.stands_iff hs).1 hst' with ⟨hst', -⟩ | ⟨hkeeps, hsends', -⟩
        · exact .inl ⟨hy, j, hst'⟩
        · obtain rfl := hs.eq_of_sends hsends hsends'
          obtain ⟨r, hst'⟩ := hkeeps.stands
          exact .inr (hs.waiters.eq_of_id_eq hy hx (hst'.eq hst).1)
      · rintro (⟨hy, j, hst'⟩ | rfl)
        · refine ⟨hy, j, (hwrote.stands_iff hs).2 (.inl ⟨hst', ?_⟩)⟩
          intro hsends'
          cases hs.unwritten hmem hsends' hst'
        · exact ⟨hx, i, (hwrote.stands_iff hs).2 (.inr ⟨hst.keeps, hsends, rfl⟩)⟩

/-- Nobody expects a response to a frame that has been refused. -/
theorem expected_refused (hs : s.Sound) (ht : t.Sound) {e : Error}
    (hwrote : Wrote o (.error e) s t) : t.expected = s.expected := by
  have hmem : o ∈ s.outbound.queued := hwrote.queued ▸ List.mem_cons_self
  refine eq_of_sorted ht.sorted_expected hs.sorted_expected fun y => ?_
  rw [mem_expected, mem_expected, hwrote.outstanding]
  refine and_congr_right fun _ => exists_congr fun j => ?_
  rw [hwrote.stands_iff hs]
  constructor
  · rintro (⟨hst, -⟩ | ⟨-, -, hr⟩)
    · exact hst
    · cases hr
  · intro hst
    refine .inl ⟨hst, fun hsends => ?_⟩
    cases hs.unwritten hmem hsends hst

theorem wrote (h : Books uses past s) (hs : s.Sound) (hrank : s.Ranked) (ht : t.Sound)
    (hwrote : Wrote o outcome s t) (horderly : Orderly uses past) :
    Books uses (past ++ [(s, .sent o outcome)]) t := by
  have hmem : o ∈ s.outbound.queued := hwrote.queued ▸ List.mem_cons_self
  have hkept : ∀ {j w r}, t.Stands j w r → s.Keeps j w := by
    intro j w r hst
    rcases (hwrote.stands_iff hs).1 hst with ⟨hst, -⟩ | ⟨hkeeps, -⟩
    · exact hst.keeps
    · exact hkeeps
  constructor
  · intro j w r hst
    obtain ⟨r', hst'⟩ := (hkept hst).stands
    exact h.pos j w r' hst'
  · intro w hw
    rw [refusals_append, List.mem_append] at hw
    rw [hwrote.outstanding]
    rcases hw with hw | hw
    · obtain ⟨hle, hrefused⟩ := h.refused w hw
      refine ⟨hle, ?_⟩
      intro j r hst
      rcases (hwrote.stands_iff hs).1 hst with ⟨hst, -⟩ | ⟨hkeeps, hsends, -⟩
      · exact hrefused j r hst
      · obtain ⟨r', hst'⟩ := hkeeps.stands
        obtain ⟨e, rfl⟩ := hrefused j r' hst'
        cases hs.unwritten hmem hsends hst'
    · cases outcome with
      | ok u => exact absurd hw List.not_mem_nil
      | error e =>
        obtain ⟨i, hsends, hkeeps⟩ := (mem_refusals_sent e).1 hw
        obtain ⟨r', hst'⟩ := hkeeps.stands
        refine ⟨hs.le_lastId hst', ?_⟩
        intro j r hst
        obtain rfl := hs.waiters.eq_of_keeps hkeeps (hkept hst)
        rcases (hwrote.stands_iff hs).1 hst with ⟨-, hother⟩ | ⟨-, -, hr⟩
        · exact absurd hsends hother
        · exact ⟨e, hr⟩
  · intro j w hst
    rw [hwrote.outstanding]
    rcases (hwrote.stands_iff hs).1 hst with ⟨hst, -⟩ | ⟨-, -, hr⟩
    · exact h.waiting j w hst
    · cases hr
  · intro o' ho'
    obtain ⟨j, w, hsends, hst⟩ := h.owned o' (hwrote.queued ▸ List.mem_cons_of_mem _ ho')
    refine ⟨j, w, hwrote.sends_iff.2 hsends, (hwrote.stands_iff hs).2 (.inl ⟨hst, ?_⟩)⟩
    intro hsends'
    exact absurd (hsends'.eq hsends) (Nat.ne_of_lt (hs.ticket_lt hwrote.queued ho'))
  · cases outcome with
    | ok u =>
      obtain ⟨x, hasked, heq⟩ := h.expected_wrote hs hrank ht hwrote
      rw [heq, horderly.sent]
      exact List.rel_append h.asked (.cons hasked .nil)
    | error e =>
      rw [expected_refused hs ht hwrote, unanswered_refused]
      exact h.asked

/-- A frame that answers nothing is told to nobody. -/
theorem not_takes (hused : ∀ x ∈ s.outstanding.waiters, uses x.expects = true)
    (hnot : isAnswer uses s f = false) (w : Nat) (m : Message) : ¬ Takes (s, f) w m := by
  rintro ⟨hd, ho⟩
  obtain ⟨hevent, hmem, -⟩ := Outstanding.oldest?_eq_some ho
  have huses := hused _ hmem
  dsimp only at hd huses hevent
  rw [isAnswer, hevent, huses, hd] at hnot
  cases hnot

/-- What a frame that is handed out leaves as it is. -/
theorem of_route (h : Books uses past s)
    (hlast : (s.route f).outstanding.lastId = s.outstanding.lastId)
    (hwaiting : ∀ i w, s.Stands i w none → ∃ x ∈ (s.route f).outstanding.waiters, x.id = w)
    (hasked : List.Forall₂ Asked (unanswered uses (past ++ [(s, .received f)]))
      (s.route f).expected) : Books uses (past ++ [(s, .received f)]) (s.route f) := by
  refine ⟨?_, ?_, ?_, ?_, hasked⟩
  · intro j w r hst
    exact h.pos j w r ((stands_route s f).1 hst)
  · intro w hw
    rw [refusals_append, List.mem_append] at hw
    rcases hw with hw | hw
    · obtain ⟨hle, hrefused⟩ := h.refused w hw
      exact ⟨hlast ▸ hle, fun j r hst => hrefused j r ((stands_route s f).1 hst)⟩
    · exact absurd hw List.not_mem_nil
  · intro j w hst
    exact hwaiting j w ((stands_route s f).1 hst)
  · intro o ho
    rw [queued_route] at ho
    obtain ⟨j, w, hsends, hst⟩ := h.owned o ho
    exact ⟨j, w, (sends_route s f).2 hsends, (stands_route s f).2 hst⟩

/-- A frame that answers nothing changes nothing. -/
theorem ignored (h : Books uses past s) (hs : s.Sound) (hrun : s.IsRunning)
    (hused : ∀ x ∈ s.outstanding.waiters, uses x.expects = true)
    (hnot : isAnswer uses s f = false) :
    Books uses (past ++ [(s, .received f)]) (s.route f) := by
  obtain ⟨-, hwaits, hlast⟩ := route_of_not_takes (not_takes hused hnot)
  have hexpected : (s.route f).expected = s.expected := by
    refine eq_of_sorted (hs.route hrun f).sorted_expected hs.sorted_expected fun x => ?_
    rw [mem_expected, mem_expected, hwaits]
    exact and_congr_right fun _ => exists_congr fun j => stands_route s f
  refine h.of_route hlast ?_ ?_
  · rw [hwaits]
    exact h.waiting
  · rw [hexpected, unanswered_ignored hnot]
    exact h.asked

end Books

/-- Of all whose frames the link has dealt with, the oldest who waits for a response gets it. -/
theorem Ranked.oldest?_eq (h : s.Ranked) (hs : s.Sound) (hevent : x.expects.isEvent = false)
    (hx : x ∈ s.outstanding.waiters) (hst : s.Stands i x.id (some outcome))
    (hfirst : ∀ y ∈ s.outstanding.waiters, y.expects = x.expects →
      ∀ j outcome', s.Stands j y.id (some outcome') → x.id ≤ y.id) :
    s.outstanding.oldest? x.expects = some x := by
  obtain ⟨y, hy⟩ := Outstanding.exists_oldest? hx rfl hevent
  obtain ⟨-, hmem, hexpects⟩ := Outstanding.oldest?_eq_some hy
  have hle : y.id ≤ x.id := hs.waiters.le_of_oldest? hy hx rfl
  obtain ⟨j, r, hst'⟩ := hs.exists_stands hmem
  have hge : x.id ≤ y.id := by
    rcases r with _ | outcome'
    · exact Nat.le_of_lt (h.dealt i j x.id y.id outcome hst hst')
    · exact hfirst y hmem hexpects j outcome' hst'
  rw [hy, hs.waiters.eq_of_id_eq hmem hx (Nat.le_antisymm hle hge)]

/-- The first in a row of waiters with an identity is the oldest of them. -/
theorem le_of_find?_waiter {l : List Waiter} {id : Identity}
    (hsorted : l.Pairwise fun x y => x.id < y.id) (hx : l.find? (·.expects == id) = some x) :
    ∀ y ∈ l, y.expects = id → x.id ≤ y.id := by
  intro y hy hexpects
  obtain ⟨-, before, after, rfl, hnot⟩ := List.find?_eq_some_iff_append.1 hx
  rcases List.mem_append.1 hy with hy | hy
  · have hne := hnot y hy
    simp [hexpects] at hne
  · rcases List.mem_cons.1 hy with rfl | hy
    · exact Nat.le_refl _
    · have hrest := (List.pairwise_append.1 hsorted).2.1
      exact Nat.le_of_lt ((List.pairwise_cons.1 hrest).1 y hy)

/-- A response goes to a waiter whose frame has been dealt with, if it is older than the others. -/
theorem Ranked.takes_of_oldest (h : s.Ranked) (hs : s.Sound)
    (hd : s.settings.catalogue.decode f = .ok m) (hevent : f.id.isEvent = false)
    (hx : x ∈ s.outstanding.waiters) (hexpects : x.expects = f.id)
    (hst : s.Stands i x.id (some outcome))
    (holdest : ∀ y ∈ s.outstanding.waiters, y.expects = f.id →
      ∀ j outcome', s.Stands j y.id (some outcome') → x.id ≤ y.id) : Takes (s, f) x.id m := by
  refine ⟨hd, ?_⟩
  rw [← hexpects, h.oldest?_eq hs (hexpects ▸ hevent) hx hst]
  exact fun y hy hid => holdest y hy (hid.trans hexpects)

/-- If none of those who were refused waits for it, a response goes to the first of those whose
frames have been written. -/
theorem Ranked.takes_expected (h : s.Ranked) (hs : s.Sound)
    (hd : s.settings.catalogue.decode f = .ok m) (hevent : f.id.isEvent = false)
    (hclear : ∀ y ∈ s.spurned, y.expects ≠ f.id)
    (hx : s.expected.find? (·.expects == f.id) = some x) : Takes (s, f) x.id m := by
  obtain ⟨hwaits, i, hst⟩ := mem_expected.1 (List.mem_of_find?_eq_some hx)
  refine h.takes_of_oldest hs hd hevent hwaits (by simpa using List.find?_some hx) hst ?_
  intro y hy hid j outcome' hst'
  cases outcome' with
  | ok success =>
    exact le_of_find?_waiter hs.sorted_expected hx y (mem_expected.2 ⟨hy, j, hst'⟩) hid
  | error e => exact absurd hid (hclear y (mem_spurned.2 ⟨hy, j, e, hst'⟩))

namespace Books

/-- An answer completes the call that put the first question without one. -/
theorem answered (h : Books uses past s) (hs : s.Sound) (hrank : s.Ranked) (hrun : s.IsRunning)
    (hlater : ∀ q ∈ questions past, Later q.1 s ∧ q.1.WaitersSound)
    (hclear : ∀ y ∈ s.spurned, y.expects ≠ f.id)
    (horderly : Orderly uses (past ++ [(s, .received f)])) (hanswer : isAnswer uses s f = true) :
    (∃ q i m, (questions past)[(answers uses past).length]? = some q ∧
      q.1.Sends i q.2.ticket ∧ Completes (s, f) i m) ∧
      Books uses (past ++ [(s, .received f)]) (s.route f) := by
  obtain ⟨q, hq, hidentity, hunanswered⟩ := horderly.answer hanswer
  have hasked := h.asked
  rw [hunanswered] at hasked
  obtain ⟨x, rest, ⟨i, hsends, hkeeps, hidentity'⟩, hrest, hexpected⟩ :=
    List.forall₂_cons_left_iff.1 hasked
  have hid : x.expects = f.id := Option.some.inj (hidentity'.symm.trans hidentity)
  have hmem : x ∈ s.expected := hexpected ▸ List.mem_cons_self
  obtain ⟨hwaits, j, hst⟩ := mem_expected.1 hmem
  have hsorted := hs.sorted_expected
  rw [hexpected, List.pairwise_cons] at hsorted
  obtain ⟨hevent, -, m, hd⟩ := isAnswer_iff.1 hanswer
  have htakes : Takes (s, f) x.id m := by
    refine hrank.takes_expected hs hd hevent hclear ?_
    rw [hexpected, List.find?_cons_of_pos (by simpa using hid)]
  -- the call that keeps the waiter now is the one that kept it when it put the question
  have hcall : s.Keeps i x.id := by
    obtain ⟨hlater', hsound⟩ := hlater q (List.mem_of_getElem? hq)
    rcases hlater'.kept j x.id hst.keeps with hkeeps' | hlt
    · rw [hsound.eq_of_keeps hkeeps hkeeps']
      exact hst.keeps
    · obtain ⟨command?, hget⟩ := WaitersSound.getElem?_holdings_of_keeps hkeeps
      have hle : x.id ≤ q.1.outstanding.lastId := hsound.le_lastId hget
      omega
  refine ⟨⟨q, i, m, hq, hsends, completes_iff.2 ⟨x.id, hcall, htakes⟩⟩, ?_⟩
  obtain ⟨ready, heq⟩ := route_of_takes htakes
  have hremove : ∀ y : Waiter,
      y ∈ (s.route f).outstanding.waiters ↔ y ∈ s.outstanding.waiters ∧ y.id ≠ x.id := by
    intro y
    rw [heq]
    simp [Outstanding.remove]
  have hrest' : (s.route f).expected = rest := by
    refine eq_of_sorted (hs.route hrun f).sorted_expected hsorted.2 fun y => ?_
    have hiff : y ∈ (s.route f).expected ↔ y ∈ s.expected ∧ y.id ≠ x.id := by
      rw [mem_expected, mem_expected, hremove]
      simp only [stands_route]
      tauto
    rw [hiff, hexpected, List.mem_cons]
    constructor
    · rintro ⟨rfl | hy, hne⟩
      · exact absurd rfl hne
      · exact hy
    · exact fun hy => ⟨.inr hy, Nat.ne_of_gt (hsorted.1 y hy)⟩
  refine h.of_route (by rw [heq]; rfl) ?_ (hrest' ▸ hrest)
  intro i' w hst'
  obtain ⟨y, hy, rfl⟩ := h.waiting i' w hst'
  refine ⟨y, (hremove y).2 ⟨hy, ?_⟩, rfl⟩
  intro he
  rw [he] at hst'
  obtain rfl := hs.eq_of_stands hst hst'
  cases (hst.eq hst').2

end Books

/-- Nobody begins to wait when a frame is handed out. -/
theorem waiters_route (s : Session) (f : Frame) :
    (s.route f).outstanding.waiters ⊆ s.outstanding.waiters := by
  by_cases h : ∃ w m, Takes (s, f) w m
  · obtain ⟨w, m, h⟩ := h
    obtain ⟨ready, heq⟩ := route_of_takes h
    rw [heq]
    exact List.filter_sublist.subset
  · rw [(route_of_not_takes fun w m htakes => h ⟨w, m, htakes⟩).2.1]
    exact List.Subset.refl _

/-! ### Along a run -/

/-- What has come of a run so far: everybody is in his place, and the books are in order. -/
structure Paired (uses : Identity → Bool) (past : List (Session × Transfer)) (s : Session) :
    Prop where
  ranked : s.Ranked
  books : Books uses past s
  used : ∀ x ∈ s.outstanding.waiters, uses x.expects = true
  later : ∀ q ∈ questions past, Later q.1 s ∧ q.1.WaitersSound
  pairs : ∀ (k : Nat) (q : Session × Outgoing) (a : Session × Frame),
    (questions past)[k]? = some q → (answers uses past)[k]? = some a →
    ∃ i m, q.1.Sends i q.2.ticket ∧ Completes a i m

namespace Paired

theorem ofSettings {settings : Settings} (h : ofSettings settings = .ok s) : Paired uses [] s := by
  have hrank := Ranked.ofSettings h
  obtain rfl := eq_of_ofSettings h
  have hnobody : ∀ {i w r}, ¬ Stands
      { settings, outbound := .ofCapacity settings.outboundCapacity,
        hub := .ofCapacity settings.eventCapacity } i w r := by
    rintro i w r ⟨call, hcall, -⟩
    simp at hcall
  refine ⟨hrank, ⟨?_, ?_, ?_, ?_, .nil⟩, ?_, ?_, ?_⟩
  · exact fun _ _ _ hst => absurd hst hnobody
  · exact fun _ hw => absurd hw List.not_mem_nil
  · exact fun _ _ hst => absurd hst hnobody
  · exact fun _ ho => absurd ho List.not_mem_nil
  · exact fun _ hx => absurd hx List.not_mem_nil
  · exact fun _ hq => absurd hq List.not_mem_nil
  · intro k q a hq
    cases hq

/-- Whoever waits awaits the response to a command that is in use. -/
theorem uses_of_calls (hs : s.Sound)
    (huses : ∀ call ∈ s.calls, ∀ command ∈ call.request.awaited?, uses command.responseId = true) :
    ∀ x ∈ s.outstanding.waiters, uses x.expects = true := by
  intro x hx
  obtain ⟨i, r, call, hcall, hw, -⟩ := hs.exists_stands hx
  obtain ⟨command, hcommand, hexpects⟩ := hs.expects_eq hcall hw hx
  rw [hexpects]
  exact huses call (List.mem_of_getElem? hcall) command hcommand

theorem deeds (h : Paired uses past s) (hs : s.Sound) (hdeeds : Deeds i s t)
    (horder : s.AdmitsInOrder)
    (hcalls : ∀ call ∈ t.calls, call.request.awaited?.isSome = true ∨ call.request = .shutdown)
    (huses : ∀ call ∈ t.calls, ∀ command ∈ call.request.awaited?, uses command.responseId = true)
    (hgone : ∀ w ∈ t.gone, w ∈ refusals past) : Paired uses past t where
  ranked := h.ranked.deeds hdeeds (.inl horder)
  books := h.books.deeds hs hdeeds hcalls hgone
  used := uses_of_calls (hdeeds.sound hs) huses
  later := fun q hq => ⟨(h.later q hq).1.trans hdeeds.later, (h.later q hq).2⟩
  pairs := h.pairs

theorem wrote (h : Paired uses past s) (hs : s.Sound) (ht : t.Sound) (horder : s.AdmitsInOrder)
    (hwrote : Wrote o outcome s t) (horderly : Orderly uses past) :
    Paired uses (past ++ [(s, .sent o outcome)]) t where
  ranked := h.ranked.wrote hs horder hwrote
  books := h.books.wrote hs h.ranked ht hwrote horderly
  used := by
    rw [hwrote.outstanding]
    exact h.used
  later := by
    intro q hq
    rw [questions_append, List.mem_append] at hq
    rcases hq with hq | hq
    · exact ⟨(h.later q hq).1.trans hwrote.later, (h.later q hq).2⟩
    · cases outcome with
      | ok success =>
        obtain rfl : q = (s, o) := List.mem_singleton.1 hq
        exact ⟨hwrote.later, hs.waiters⟩
      | error e => exact absurd hq List.not_mem_nil
  pairs := by
    intro k q a hq ha
    rw [answers_sent] at ha
    have hlt : k < (questions past).length :=
      Nat.lt_of_lt_of_le (List.getElem?_eq_some_iff.1 ha).1 horderly.length_le
    rw [questions_append, List.getElem?_append_left hlt] at hq
    exact h.pairs k q a hq ha

theorem route (h : Paired uses past s) (hs : s.Sound) (hrun : s.IsRunning)
    (hclear : ∀ y ∈ s.spurned, y.expects ≠ f.id)
    (horderly : Orderly uses (past ++ [(s, .received f)])) :
    Paired uses (past ++ [(s, .received f)]) (s.route f) := by
  have hlater : ∀ q ∈ questions past, Later q.1 (s.route f) ∧ q.1.WaitersSound := fun q hq =>
    ⟨(h.later q hq).1.trans (.of_route s f), (h.later q hq).2⟩
  have hused : ∀ x ∈ (s.route f).outstanding.waiters, uses x.expects = true := fun x hx =>
    h.used x (waiters_route s f hx)
  cases hanswer : isAnswer uses s f with
  | false =>
    refine ⟨h.ranked.route f, h.books.ignored hs hrun h.used hanswer, hused, ?_, ?_⟩
    · rw [questions_received]
      exact hlater
    · rw [questions_received, answers_ignored hanswer]
      exact h.pairs
  | true =>
    obtain ⟨⟨q', i, m, hq', hsends, hcompletes⟩, hbooks⟩ :=
      h.books.answered hs h.ranked hrun h.later hclear horderly hanswer
    refine ⟨h.ranked.route f, hbooks, hused, ?_, ?_⟩
    · rw [questions_received]
      exact hlater
    · rw [questions_received, answers_received hanswer]
      intro k q a hq ha
      rcases getElem?_append_cases ha with ⟨rfl, rfl⟩ | ha
      · obtain rfl := Option.some.inj (hq.symm.trans hq')
        exact ⟨i, m, hsends, hcompletes⟩
      · exact h.pairs k q a hq ha

end Paired

/-- If callers send only for responses that they await, get their slots in order and give up on no
frame but those that were refused, and if the module answers in order, and never while somebody who
was refused waits for the same, then each answer completes the call whose question it answers. -/
theorem paired {settings : Settings} (h₀ : ofSettings settings = .ok s)
    (hrun : s.run? actions = some t)
    (hcalls : ∀ call ∈ t.calls, call.request.awaited?.isSome = true ∨ call.request = .shutdown)
    (horder : ∀ u ∈ s.trail actions, u.AdmitsInOrder)
    (hgone : ∀ before ∈ actions.inits, ∀ u, s.run? before = some u → u.IsRunning →
      ∀ w ∈ u.gone, w ∈ refusals (s.log before))
    (hclear : ∀ p ∈ s.log actions, ∀ f, p.2 = .received f → ∀ y ∈ p.1.spurned, y.expects ≠ f.id)
    (horderly : Orderly t.inUse (s.log actions)) : ∃ u, Paired t.inUse (s.log actions) u := by
  have hall : ∃ u : Session, Orderly t.inUse (s.log actions) →
      (∀ p ∈ s.log actions, ∀ f, p.2 = .received f → ∀ y ∈ p.1.spurned, y.expects ≠ f.id) →
      Paired t.inUse (s.log actions) u := by
    refine log_induction
      (P := fun past u => Orderly t.inUse past →
        (∀ p ∈ past, ∀ f, p.2 = .received f → ∀ y ∈ p.1.spurned, y.expects ≠ f.id) →
        Paired t.inUse past u)
      (Q := fun past u => u.AdmitsInOrder ∧ Later u t ∧
        (u.IsRunning → ∀ w ∈ u.gone, w ∈ refusals past)) h₀ hrun ?_ ?_ ?_ ?_ ?_ ?_
    · intro before hbefore u hu
      refine ⟨horder u (mem_trail hbefore hu), ?_, hgone before hbefore u hu⟩
      obtain ⟨after, rfl⟩ := (List.mem_inits _ _).1 hbefore
      exact .of_run? (run?_of_append hrun hu)
    · exact fun _ _ => .ofSettings h₀
    · intro past u pump pumpState alarms h hpast hfree
      obtain ⟨hrank, hbooks, hused, hlater, hpairs⟩ := h hpast hfree
      exact ⟨⟨hrank.queued, hrank.dealt⟩,
        ⟨hbooks.pos, hbooks.refused, hbooks.waiting, hbooks.owned, hbooks.asked⟩, hused,
        fun q hq => ⟨(hlater q hq).1.trans (.of_calls_eq rfl (Nat.le_refl _)
          (List.Subset.refl _)), (hlater q hq).2⟩, hpairs⟩
    · rintro past i u v hu hgoing ⟨hfair, -, -⟩ ⟨-, hlater, hlost⟩ hdeeds h hpast hfree
      refine (h hpast hfree).deeds hu hdeeds hfair ?_ ?_ (hlost hgoing)
      · intro call hmem
        obtain ⟨call', hmem', hrequest⟩ := hlater.exists_call hmem
        rw [← hrequest]
        exact hcalls call' hmem'
      · intro call hmem command hcommand
        obtain ⟨call', hmem', hrequest⟩ := hlater.exists_call hmem
        rw [← hrequest] at hcommand
        exact List.any_eq_true.2 ⟨call', hmem', by simp [Option.mem_def.1 hcommand]⟩
    · rintro past o outcome u v hu ⟨hfair, -⟩ hwrote hv h hpast hfree
      exact (h hpast.of_append fun p hp => hfree p (List.mem_append_left _ hp)).wrote hu hv hfair
        hwrote hpast.of_append
    · intro past f u hu hgoing h hpast hfree
      exact (h hpast.of_append fun p hp => hfree p (List.mem_append_left _ hp)).route hu hgoing
        (hfree (u, .received f) (by simp) f rfl) hpast
  obtain ⟨u, hu⟩ := hall
  exact ⟨u, hu horderly hclear⟩

/-! ### What calls end with -/

/-- Whatever is handed out in a run meets a session in which the accounts are in order. -/
theorem sound_of_mem_history {settings : Settings} (h₀ : ofSettings settings = .ok s)
    (hrun : s.run? actions = some t) {p : Session × Frame} (hp : p ∈ s.history actions) :
    p.1.WaitersSound ∧ Later p.1 t ∧ p.1.settings = t.settings := by
  have htraced := (Traced.ofSettings h₀).run hrun
  rw [List.nil_append] at htraced
  exact ⟨htraced.sounds p hp, (Later.of_route p.1 p.2).trans (htraced.later p hp),
    htraced.settings p hp⟩

/-- A call that has ended well was completed by one of the answers. -/
theorem exists_answer {settings : Settings} {c : Command} {time : Nat} {result : Outcome}
    (h₀ : ofSettings settings = .ok s) (hrun : s.run? actions = some t)
    (hcall : t.calls[i]? = some call) (hcommand : call.request.awaited? = some c)
    (hstage : call.stage = .ended time (.ok result)) :
    ∃ (k : Nat) (a : Session × Frame) (m : Message),
      (answers t.inUse (s.log actions))[k]? = some a ∧ Completes a i m ∧
        call.request.conclude m = .ok result ∧ a ∈ s.history actions := by
  have htraced := (Traced.ofSettings h₀).run hrun
  rw [List.nil_append] at htraced
  obtain ⟨a, hmem, m, hcompletes, hconclude⟩ :=
    htraced.ended i call c time result hcall hcommand hstage
  obtain ⟨hsound, hlater, -⟩ := sound_of_mem_history h₀ hrun hmem
  obtain ⟨w, call', c', hcall', hw, hcommand', hid, -, -, hd⟩ := hcompletes.facts hsound
  have hevent : a.2.id.isEvent = false := by
    rw [hid]
    rfl
  have huses : t.inUse a.2.id = true := by
    obtain ⟨call'', hmem'', hrequest⟩ := hlater.exists_call (List.mem_of_getElem? hcall')
    refine List.any_eq_true.2 ⟨call'', hmem'', ?_⟩
    rw [hrequest, hcommand', hid]
    simp
  have hanswer : a ∈ answers t.inUse (s.log actions) :=
    mem_answers.2 ⟨received_mem_log.2 hmem, isAnswer_iff.2 ⟨hevent, huses, m, hd⟩⟩
  obtain ⟨k, hk⟩ := List.mem_iff_getElem?.1 hanswer
  exact ⟨k, a, m, hk, hcompletes, hconclude, hmem⟩

/-- Every answer answers a question. -/
theorem Orderly.exists_question (h : Orderly uses past) {a : Session × Frame}
    (ha : (answers uses past)[k]? = some a) :
    ∃ q, (questions past)[k]? = some q ∧ q.2.identity? = some a.2.id := by
  have hlt : k < (questions past).length :=
    Nat.lt_of_lt_of_le (List.getElem?_eq_some_iff.1 ha).1 h.length_le
  refine ⟨_, List.getElem?_eq_getElem hlt, ?_⟩
  obtain ⟨rest, heq⟩ := h past ((List.mem_inits _ _).2 (List.prefix_refl _))
  have hget := congrArg (·[k]?) heq
  simp only [List.getElem?_map, List.getElem?_eq_getElem hlt] at hget
  rw [List.getElem?_append_left (by simpa using (List.getElem?_eq_some_iff.1 ha).1),
    List.getElem?_map, ha] at hget
  simpa using hget.symm

/-- Where questions and answers are paired, a call that has ended well ended with the answer to its
own question. -/
theorem Paired.exists_own {settings : Settings} {c : Command} {time : Nat} {result : Outcome}
    (h : Paired t.inUse (s.log actions) u) (h₀ : Session.ofSettings settings = .ok s)
    (hrun : s.run? actions = some t) (horderly : Orderly t.inUse (s.log actions))
    (hcall : t.calls[i]? = some call) (hcommand : call.request.awaited? = some c)
    (hstage : call.stage = .ended time (.ok result)) :
    ∃ (k : Nat) (q : Session × Outgoing) (a : Session × Frame) (m : Message),
      (questions (s.log actions))[k]? = some q ∧ (answers t.inUse (s.log actions))[k]? = some a ∧
      q.1.Sends i q.2.ticket ∧ Completes a i m ∧ call.request.conclude m = .ok result := by
  obtain ⟨k, a, m, ha, hcompletes, hconclude, hmem⟩ :=
    exists_answer h₀ hrun hcall hcommand hstage
  obtain ⟨q, hq, -⟩ := horderly.exists_question ha
  obtain ⟨j, m', hsends, hcompletes'⟩ := h.pairs k q a hq ha
  obtain rfl := hcompletes'.eq_of_completes hcompletes (sound_of_mem_history h₀ hrun hmem).1
  exact ⟨k, q, a, m, hq, ha, hsends, hcompletes, hconclude⟩

end Session

end BleHost
