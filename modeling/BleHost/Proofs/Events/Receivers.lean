import BleHost.Proofs.Events.Delivery

/-!
# What receivers are told

The receivers of a hub's stream read it at their own pace, while the hub goes through any steps.
What a receiver has been told accounts for the first of the events that were published since it was
made (`Accounts`): each of them was handed to it or counted among those that it missed. What it is
told next depends on the others alone, which it has not heard of yet, and on whether the stream has
ended (`Broadcast.next`, `EventHub.Follows.receive`). Nobody else's reading comes into it
(`EventHub.Beside`).
-/

namespace BleHost

/-- What a receiver has been told accounts for some events, in their order. -/
inductive Accounts : List Received → List Message → Prop
  | nil : Accounts [] []
  | message {told : List Received} {events : List Message} (m : Message)
    (h : Accounts told events) : Accounts (.message m :: told) (m :: events)
  | lagged {told : List Received} {events : List Message} (missed : List Message)
    (h : Accounts told events) : Accounts (.lagged missed.length :: told) (missed ++ events)
  | empty {told : List Received} {events : List Message} (h : Accounts told events) :
    Accounts (.empty :: told) events
  | closed {told : List Received} {events : List Message} (h : Accounts told events) :
    Accounts (.closed :: told) events

theorem Accounts.append {told told' : List Received} {events events' : List Message}
    (h : Accounts told events) (h' : Accounts told' events') :
    Accounts (told ++ told') (events ++ events') := by
  induction h with
  | nil => exact h'
  | message m h ih => exact .message m ih
  | lagged missed h ih =>
    rw [List.append_assoc]
    exact .lagged missed ih
  | empty h ih => exact .empty ih
  | closed h ih => exact .closed ih

/-! ### The stream -/

namespace Broadcast

variable {b : Broadcast} {position : Nat}

open private Nat.nextPowerOfTwo.go from Init.Data.Nat.Power2.Basic

/-- The search for a power of two ends at one that is large enough, and goes no further. -/
theorem nextPowerOfTwo_go_spec (n power : Nat) (h : power > 0) :
    n ≤ Nat.nextPowerOfTwo.go n power h ∧
      (Nat.nextPowerOfTwo.go n power h = power ∨ Nat.nextPowerOfTwo.go n power h < 2 * n) := by
  induction hleft : n - power using Nat.strongRecOn generalizing power with
  | _ left ih =>
    unfold Nat.nextPowerOfTwo.go
    split
    · obtain ⟨hle, hnext⟩ := ih (n - power * 2) (by omega) (power * 2) (by omega) rfl
      refine ⟨hle, .inr ?_⟩
      rcases hnext with heq | hless
      · rw [heq]
        omega
      · exact hless
    · exact ⟨by omega, .inl rfl⟩

/-- A stream keeps the least power of two that is as large as what was asked for, and at least
one. -/
theorem kept_ofCapacity (capacity : Nat) :
    (ofCapacity capacity).kept.isPowerOfTwo ∧ max capacity 1 ≤ (ofCapacity capacity).kept ∧
      ∀ p : Nat, p.isPowerOfTwo → max capacity 1 ≤ p → (ofCapacity capacity).kept ≤ p := by
  have hpower : (ofCapacity capacity).kept.isPowerOfTwo :=
    Nat.isPowerOfTwo_nextPowerOfTwo (max capacity 1)
  have hspec : max capacity 1 ≤ (ofCapacity capacity).kept ∧
      ((ofCapacity capacity).kept = 1 ∨ (ofCapacity capacity).kept < 2 * max capacity 1) :=
    nextPowerOfTwo_go_spec (max capacity 1) 1 (by decide)
  obtain ⟨hle, hnext⟩ := hspec
  refine ⟨hpower, hle, ?_⟩
  rintro p ⟨e, rfl⟩ he
  rcases hnext with hone | hless
  · rw [hone]
    exact Nat.one_le_two_pow
  · obtain ⟨d, hd⟩ := hpower
    have hlt : 2 ^ d < 2 ^ (e + 1) := by
      rw [← hd, Nat.pow_succ]
      omega
    rw [hd]
    exact Nat.pow_le_pow_right (by decide)
      (Nat.le_of_lt_succ ((Nat.pow_lt_pow_iff_right (by decide)).1 hlt))

/-- What a receiver is told next that has not heard of some events yet, the stream keeping so many
and being closed or not. -/
def next (kept : Nat) (closed : Bool) (unheard : List Message) : Received :=
  if kept < unheard.length then .lagged (unheard.length - kept)
  else match unheard with
    | m :: _ => .message m
    | [] => if closed then .closed else .empty

/-- All that is still to be told once the stream is closed. -/
def outlook (kept : Nat) (unheard : List Message) : List Received :=
  (if kept < unheard.length then [.lagged (unheard.length - kept)] else []) ++
    (unheard.drop (unheard.length - kept)).map Received.message

@[simp]
theorem outlook_nil (kept : Nat) : outlook kept [] = [] := by
  simp [outlook]

theorem remainder_eq_outlook (h : position ≤ b.tail) :
    b.remainder position = outlook b.kept (b.published.drop position) := by
  have hlength : (b.published.drop position).length = b.tail - position := List.length_drop
  have hdrop : position + (b.tail - position - b.kept) = max position (b.tail - b.kept) := by omega
  have hmissed : b.tail - position - b.kept = b.tail - b.kept - position := by omega
  rw [remainder, outlook, hlength, List.drop_drop, hdrop, hmissed]
  by_cases hbehind : position + b.kept < b.tail
  · rw [if_pos hbehind, if_pos (by omega)]
  · rw [if_neg hbehind, if_neg (by omega)]

/-- A receiver is told of the first of the events that it has not heard of yet. -/
theorem receive_eq_next (h : position ≤ b.tail) :
    (b.receive position).1 = next b.kept b.closed (b.published.drop position) ∧
      ∃ heard unheard, b.published.drop position = heard ++ unheard ∧
        Accounts [(b.receive position).1] heard ∧
        (b.receive position).2 = position + heard.length := by
  have hlength : (b.published.drop position).length = b.tail - position := List.length_drop
  simp only [receive, next, hlength]
  by_cases hbehind : position + b.kept < b.tail
  · have hmissed : b.tail - b.kept - position = b.tail - position - b.kept := by omega
    have hcount : ((b.published.drop position).take (b.tail - b.kept - position)).length =
        b.tail - b.kept - position := by
      rw [List.length_take, hlength]
      omega
    have haccounts := Accounts.lagged ((b.published.drop position).take
      (b.tail - b.kept - position)) .nil
    rw [hcount, List.append_nil] at haccounts
    rw [if_pos hbehind, if_pos (by omega), hmissed]
    refine ⟨rfl, _, _, (List.take_append_drop (b.tail - b.kept - position) _).symm, ?_, ?_⟩
    · rwa [← hmissed]
    · rw [hcount]
      show b.tail - b.kept = _
      omega
  · have hahead : ¬ b.kept < b.tail - position := by omega
    simp only [if_neg hbehind, if_neg hahead]
    rcases hget : b.published[position]? with _ | m
    · have hnone : b.published.drop position = [] :=
        List.drop_eq_nil_of_le (List.getElem?_eq_none_iff.1 hget)
      rw [hnone]
      refine ⟨rfl, [], [], rfl, ?_, rfl⟩
      dsimp only
      split
      · exact .closed .nil
      · exact .empty .nil
    · obtain ⟨hlt, rfl⟩ := List.getElem?_eq_some_iff.1 hget
      rw [List.drop_eq_getElem_cons hlt]
      exact ⟨rfl, [_], _, rfl, .message _ .nil, rfl⟩

end Broadcast

/-! ### Steps of a hub -/

namespace HubStep

/-- Whether the hub is closed in a step. -/
def closes : HubStep → Bool
  | close => true
  | _ => false

/-- Whether a receiver is made in a step. -/
def attaches : HubStep → Bool
  | use .addReceiver => true
  | _ => false

/-- Whether the receiver in place `k` is read in a step. -/
def reads (k : Nat) : HubStep → Bool
  | use (.receive index) => index == k
  | _ => false

/-- Whether the receiver in place `k` is read or given up in a step. -/
def concerns (k : Nat) : HubStep → Bool
  | use (.receive index) => index == k
  | use (.dropReceiver index) => index == k
  | _ => false

/-- The events that are published before the hub is closed for the first time, in order. -/
def streamed : List HubStep → List Message
  | [] => []
  | step :: steps => if step.closes then [] else step.published ++ streamed steps

end HubStep

namespace EventHub

variable {h g : EventHub} {k : Nat} {unheard : List Message}

/-- What the receiver in place `k` is told in a step. -/
def tells (h : EventHub) (k : Nat) (step : HubStep) : List Received :=
  if step.reads k then [(h.receive k).1] else []

/-- What the receiver in place `k` is told over several steps, in order. -/
def told (h : EventHub) (k : Nat) : List HubStep → List Received
  | [] => []
  | step :: steps => h.tells k step ++ (h.step step).told k steps

/-- There is a receiver in place `k`, and these are the events on the stream that it has not heard
of yet. -/
def Awaits (h : EventHub) (k : Nat) (unheard : List Message) : Prop :=
  ∃ r, h.receivers[k]? = some r ∧ r.position ≤ h.stream.tail ∧
    h.stream.published.drop r.position = unheard

/-- What a step does to the stream. -/
theorem stream_step (h : EventHub) (step : HubStep) :
    (h.step step).stream.kept = h.stream.kept ∧
      (h.step step).stream.closed = (h.stream.closed || step.closes) ∧
      (h.step step).stream.published =
        h.stream.published ++ if h.stream.closed then [] else step.published := by
  cases step with
  | publish m =>
    rw [EventHub.step, publish, Broadcast.publish]
    cases hclosed : h.stream.closed <;> simp [hclosed, HubStep.closes, HubStep.published]
  | close => simp [EventHub.step, close, Broadcast.close, HubStep.closes, HubStep.published]
  | use use => simp [EventHub.step, HubStep.closes, HubStep.published]

/-- Nothing happens to a closed stream. -/
theorem stream_step_of_closed (hclosed : h.stream.closed = true) (step : HubStep) :
    (h.step step).stream = h.stream := by
  cases step with
  | publish m => rw [EventHub.step, publish, Broadcast.publish, if_pos hclosed]
  | close => rw [EventHub.step, close, Broadcast.close, ← hclosed]
  | use use => exact stream_use h use

theorem closed_run (h : EventHub) (steps : List HubStep) :
    (h.run steps).stream.closed = (h.stream.closed || steps.any (·.closes)) := by
  induction steps generalizing h with
  | nil => rw [List.any_nil, Bool.or_false, run, List.foldl_nil]
  | cons step steps ih =>
    rw [run, List.foldl_cons, ← run, ih, (h.stream_step step).2.1, List.any_cons, Bool.or_assoc]

theorem kept_run (h : EventHub) (steps : List HubStep) :
    (h.run steps).stream.kept = h.stream.kept := by
  induction steps generalizing h with
  | nil => rfl
  | cons step steps ih => rw [run, List.foldl_cons, ← run, ih, (h.stream_step step).1]

/-- Reading moves the receiver that is read. -/
theorem receivers_receive (h : EventHub) (index : Nat) :
    (h.receive index).2.receivers =
      h.receivers.modify index fun r => { r with position := (h.stream.receive r.position).2 } := by
  rw [List.modify_eq_set_getElem?, receive]
  cases h.receivers[index]? <;> simp

/-- A step makes a receiver behind all others, or none. -/
theorem length_receivers_step (h : EventHub) (step : HubStep) :
    (h.step step).receivers.length = h.receivers.length + if step.attaches then 1 else 0 := by
  cases step with
  | use use =>
    cases use with
    | addReceiver => simp [EventHub.step, EventHub.use, receiver, HubStep.attaches]
    | dropReceiver index => simp [EventHub.step, EventHub.use, dropReceiver, HubStep.attaches]
    | deliver index => rw [EventHub.step, EventHub.use, deliver_eq]; rfl
    | receive index =>
      simp [EventHub.step, EventHub.use, receivers_receive, HubStep.attaches]
    | _ => rfl
  | _ => rfl

theorem length_receivers_run (h : EventHub) (steps : List HubStep) :
    (h.run steps).receivers.length = h.receivers.length + steps.countP (·.attaches) := by
  induction steps generalizing h with
  | nil => rfl
  | cons step steps ih =>
    rw [run, List.foldl_cons, ← run, ih, length_receivers_step, List.countP_cons]
    omega

/-- A receiver stays in its place, and only its own reading moves it. -/
theorem receivers_step {r : Receiver} (hr : h.receivers[k]? = some r) (step : HubStep) :
    ∃ r', (h.step step).receivers[k]? = some r' ∧
      r'.position = if step.reads k then (h.stream.receive r.position).2 else r.position := by
  cases step with
  | use use =>
    cases use with
    | addReceiver =>
      refine ⟨r, ?_, rfl⟩
      rw [EventHub.step, EventHub.use, receiver,
        List.getElem?_append_left (List.getElem?_eq_some_iff.1 hr).1, hr]
    | dropReceiver index =>
      refine ⟨if index = k then { r with inUse := false } else r, ?_, ?_⟩
      · rw [EventHub.step, EventHub.use, dropReceiver, List.getElem?_modify, hr,
          Option.map_eq_map, Option.map_some]
      · split <;> rfl
    | deliver index =>
      rw [EventHub.step, EventHub.use, deliver_eq]
      exact ⟨r, hr, rfl⟩
    | receive index =>
      refine ⟨if index = k then { r with position := (h.stream.receive r.position).2 } else r,
        ?_, ?_⟩
      · rw [EventHub.step, EventHub.use, receivers_receive, List.getElem?_modify, hr,
          Option.map_eq_map, Option.map_some]
      · simp only [HubStep.reads, beq_iff_eq]
        split <;> rfl
    | _ => exact ⟨r, hr, rfl⟩
  | _ => exact ⟨r, hr, rfl⟩

/-! ### What a receiver is told -/

/-- A new receiver awaits what is published from now on. -/
theorem awaits_receiver (h : EventHub) : h.receiver.Awaits h.receivers.length [] := by
  refine ⟨{ position := h.stream.tail }, List.getElem?_concat_length, Nat.le_refl _, ?_⟩
  exact List.drop_length

/-- What a receiver is told next depends on the stream and on what it has not heard of. -/
theorem Awaits.receive (hawaits : h.Awaits k unheard) :
    (h.receive k).1 = Broadcast.next h.stream.kept h.stream.closed unheard := by
  obtain ⟨r, hr, hle, rfl⟩ := hawaits
  rw [EventHub.receive, hr]
  exact (Broadcast.receive_eq_next hle).1

/-- A receiver that is read hears of the first of the events that it awaits. Those that are
published join the others behind. -/
theorem Awaits.step (hawaits : h.Awaits k unheard) (step : HubStep) :
    ∃ heard unheard', (h.step step).Awaits k unheard' ∧ Accounts (h.tells k step) heard ∧
      unheard ++ (if h.stream.closed then [] else step.published) = heard ++ unheard' := by
  obtain ⟨r, hr, hle, rfl⟩ := hawaits
  obtain ⟨r', hr', hposition⟩ := receivers_step hr step
  obtain ⟨-, -, hpublished⟩ := h.stream_step step
  have hmove : ∀ position, position ≤ h.stream.tail → r'.position = position →
      (h.step step).Awaits k (h.stream.published.drop position ++
        if h.stream.closed then [] else step.published) := by
    rintro position hposition rfl
    refine ⟨r', hr', ?_, ?_⟩
    · rw [Broadcast.tail, hpublished, List.length_append]
      exact Nat.le_add_right_of_le hposition
    · rw [hpublished, List.drop_append_of_le_length hposition]
  unfold tells
  split at hposition
  · rename_i hreads
    obtain ⟨-, heard, unheard, hsplit, haccounts, hmoved⟩ := Broadcast.receive_eq_next hle
    have hlength := congrArg List.length hsplit
    rw [List.length_drop, List.length_append, ← Broadcast.tail] at hlength
    have hdrop : h.stream.published.drop (r.position + heard.length) = unheard := by
      rw [← List.drop_drop, hsplit, List.drop_left]
    refine ⟨heard, _, hmove (r.position + heard.length) (by omega) (hposition.trans hmoved), ?_, ?_⟩
    · rw [if_pos hreads, EventHub.receive, hr]
      exact haccounts
    · rw [hsplit, hdrop, List.append_assoc]
  · rename_i hreads
    refine ⟨[], _, hmove r.position hle hposition, ?_, rfl⟩
    rw [if_neg hreads]
    exact .nil

/-- Over a run, what a receiver is told accounts for the first of the events that it awaits and that
are published before the stream ends. It awaits the others. -/
theorem Awaits.run (hawaits : h.Awaits k unheard) (steps : List HubStep) :
    ∃ heard unheard', (h.run steps).Awaits k unheard' ∧ Accounts (h.told k steps) heard ∧
      unheard ++ (if h.stream.closed then [] else HubStep.streamed steps) = heard ++ unheard' := by
  induction steps generalizing h unheard with
  | nil =>
    refine ⟨[], unheard, hawaits, .nil, ?_⟩
    rw [HubStep.streamed, ite_self, List.append_nil, List.nil_append]
  | cons step steps ih =>
    obtain ⟨heard, unheard₁, hawaits₁, haccounts, hsplit⟩ := hawaits.step step
    obtain ⟨more, unheard₂, hawaits₂, haccounts', hsplit'⟩ := ih hawaits₁
    refine ⟨heard ++ more, unheard₂, hawaits₂, haccounts.append haccounts', ?_⟩
    have hnews : (if h.stream.closed then [] else HubStep.streamed (step :: steps)) =
        (if h.stream.closed then [] else step.published) ++
          if (h.step step).stream.closed then [] else HubStep.streamed steps := by
      rw [(h.stream_step step).2.1, HubStep.streamed]
      cases h.stream.closed with
      | true => rfl
      | false =>
        cases hcloses : step.closes with
        | true =>
          have hnone : step.published = [] := by
            cases step with
            | publish m => cases hcloses
            | _ => rfl
          simp [hnone]
        | false => simp
    rw [hnews, ← List.append_assoc, hsplit, List.append_assoc, hsplit', List.append_assoc]

/-- Once the stream is closed, a receiver that is read reads out what is left. -/
theorem told_of_closed (hclosed : h.stream.closed = true) (hawaits : h.Awaits k unheard)
    (steps : List HubStep) :
    h.told k steps = (Broadcast.outlook h.stream.kept unheard ++
      List.replicate (steps.countP (·.reads k)) Received.closed).take
        (steps.countP (·.reads k)) := by
  obtain ⟨r, hr, hle, rfl⟩ := hawaits
  rw [← Broadcast.remainder_eq_outlook hle, ← Broadcast.receiveTimes_of_closed hclosed]
  clear hle
  induction steps generalizing h r with
  | nil => rfl
  | cons step steps ih =>
    obtain ⟨r', hr', hposition⟩ := receivers_step hr step
    have hstream := stream_step_of_closed hclosed step
    rw [told, tells, ih (hstream ▸ hclosed) r' hr', hstream, hposition, List.countP_cons]
    split
    · rw [Broadcast.receiveTimes, EventHub.receive, hr]
      rfl
    · rfl

/-! ### Other receivers -/

/-- Two hubs that differ in one receiver at most. -/
structure Beside (k : Nat) (h g : EventHub) : Prop where
  stream : h.stream = g.stream
  lastId : h.lastId = g.lastId
  subscribed : h.subscribed = g.subscribed
  listeners : h.listeners = g.listeners
  count : h.receivers.length = g.receivers.length
  others : ∀ j, j ≠ k → h.receivers[j]? = g.receivers[j]?

theorem Beside.receive (hbeside : Beside k h g) {j : Nat} (hj : j ≠ k) :
    (h.receive j).1 = (g.receive j).1 := by
  rw [EventHub.receive, EventHub.receive, hbeside.stream, hbeside.others j hj]
  cases g.receivers[j]? <;> rfl

/-- What is done with the receiver that is left out makes no difference to the others. -/
theorem Beside.skip (hbeside : Beside k h g) {step : HubStep} (hstep : step.concerns k = true) :
    Beside k (h.step step) g := by
  cases step with
  | use use =>
    cases use with
    | receive index =>
      obtain rfl : index = k := eq_of_beq hstep
      rw [EventHub.step, EventHub.use, receive_eq, receivers_receive]
      exact { hbeside with
        count := (List.length_modify _ _ _).trans hbeside.count
        others := fun j hj => (List.getElem?_modify_ne _ _ hj.symm).trans (hbeside.others j hj) }
    | dropReceiver index =>
      obtain rfl : index = k := eq_of_beq hstep
      exact { hbeside with
        count := (List.length_modify _ _ _).trans hbeside.count
        others := fun j hj => (List.getElem?_modify_ne _ _ hj.symm).trans (hbeside.others j hj) }
    | _ => cases hstep
  | _ => cases hstep

/-- Two hubs that differ in one receiver at most still do so when both take a step. -/
theorem Beside.both (hbeside : Beside k h g) (step : HubStep) :
    Beside k (h.step step) (g.step step) := by
  obtain ⟨hstream, hlast, hsubscribed, hlisteners, hcount, hothers⟩ := hbeside
  cases step with
  | publish m =>
    refine ⟨?_, hlast, hsubscribed, ?_, hcount, hothers⟩
    · simp only [EventHub.step, publish, hstream]
    · simp only [EventHub.step, publish, isSubscribed, hsubscribed, hlisteners]
      rfl
  | close =>
    refine ⟨?_, hlast, rfl, hlisteners, hcount, hothers⟩
    simp only [EventHub.step, close, hstream]
  | use use =>
    cases use with
    | subscribe react =>
      refine ⟨hstream, ?_, ?_, ?_, hcount, hothers⟩ <;>
        simp only [EventHub.step, EventHub.use, subscribe, hlast, hsubscribed, hlisteners]
    | unsubscribe id =>
      refine ⟨hstream, hlast, ?_, hlisteners, hcount, hothers⟩
      simp only [EventHub.step, EventHub.use, unsubscribe, hsubscribed]
    | deliver index =>
      simp only [EventHub.step, EventHub.use, deliver_eq]
      refine ⟨hstream, hlast, ?_, ?_, hcount, hothers⟩
      · simp only [ends, hsubscribed, hlisteners]
      · rw [hlisteners]
    | addReceiver =>
      refine ⟨hstream, hlast, hsubscribed, hlisteners, ?_, fun j hj => ?_⟩
      · simp only [EventHub.step, EventHub.use, receiver, List.length_append,
          List.length_singleton, hcount]
      · simp only [EventHub.step, EventHub.use, receiver, List.getElem?_append, hcount, hstream,
          hothers j hj]
    | dropReceiver index =>
      refine ⟨hstream, hlast, hsubscribed, hlisteners, ?_, fun j hj => ?_⟩
      · simp only [EventHub.step, EventHub.use, dropReceiver, List.length_modify, hcount]
      · simp only [EventHub.step, EventHub.use, dropReceiver, List.getElem?_modify, hothers j hj]
    | receive index =>
      simp only [EventHub.step, EventHub.use]
      rw [h.receive_eq, g.receive_eq]
      refine ⟨hstream, hlast, hsubscribed, hlisteners, ?_, fun j hj => ?_⟩
      · simp only [receivers_receive, List.length_modify, hcount]
      · simp only [receivers_receive, List.getElem?_modify, hothers j hj, hstream]

/-- A hub that is used in the same way apart from one receiver tells the others the same. -/
theorem Beside.run (hbeside : Beside k h g) (steps : List HubStep) :
    Beside k (h.run steps) (g.run (steps.filter fun step => !step.concerns k)) ∧
      ∀ j, j ≠ k → h.told j steps = g.told j (steps.filter fun step => !step.concerns k) := by
  induction steps generalizing h g with
  | nil => exact ⟨hbeside, fun _ _ => rfl⟩
  | cons step steps ih =>
    cases hstep : step.concerns k with
    | true =>
      obtain ⟨hrun, htold⟩ := ih (hbeside.skip hstep)
      rw [List.filter_cons_of_neg (by rw [hstep]; decide)]
      refine ⟨hrun, fun j hj => ?_⟩
      have hother : step.reads j = false := by
        cases step with
        | use use =>
          cases use with
          | receive index =>
            rw [HubStep.reads, eq_of_beq hstep]
            exact beq_false_of_ne hj.symm
          | _ => rfl
        | _ => rfl
      rw [told, tells, hother, ← htold j hj]
      rfl
    | false =>
      obtain ⟨hrun, htold⟩ := ih (hbeside.both step)
      rw [List.filter_cons_of_pos (by rw [hstep]; decide)]
      refine ⟨hrun, fun j hj => ?_⟩
      rw [told, told, tells, tells, hbeside.receive hj, htold j hj]

/-- **A receiver hears of all that is published until the stream ends, once each and in order.** The
stream keeps as many events as were asked for, and at least one, rounded up to a power of two. A hub
goes through any steps, in one of which a receiver is made. At any moment after that, what it has
been told accounts for the first of the events that were published since and before the hub was
closed for the first time. It has not heard of the others yet, and on those alone and on whether the
hub has been closed depends what it is told next: how many of them are not kept any more, or else
the first of them, or else that there is nothing, yet or any more. Once the hub has been closed, the
receiver reads out what is left in this way and is then told that the stream is closed, for good; a
receiver that is made after that is told so at once. Whether and when a receiver is read or given up
is of no consequence to what the others are told, nor to listeners and their subscriptions. -/
theorem told_in_order (capacity : Nat) :
    ((ofCapacity capacity).stream.kept.isPowerOfTwo ∧
      max capacity 1 ≤ (ofCapacity capacity).stream.kept ∧
      ∀ p : Nat, p.isPowerOfTwo → max capacity 1 ≤ p → (ofCapacity capacity).stream.kept ≤ p) ∧
    (∀ before now after,
      let kept := (ofCapacity capacity).stream.kept
      let made := (ofCapacity capacity).run (before ++ [.use .addReceiver])
      let place := before.countP (·.attaches)
      let closed := (before ++ now).any (·.closes)
      let reads := after.countP (·.reads place)
      ∃ heard unheard,
        heard ++ unheard = (if before.any (·.closes) then [] else HubStep.streamed now) ∧
        Accounts (made.told place now) heard ∧
        ((made.run now).receive place).1 = Broadcast.next kept closed unheard ∧
        (closed = true → (made.run now).told place after =
          (Broadcast.outlook kept unheard ++ List.replicate reads Received.closed).take reads)) ∧
    (∀ before after,
      let made := (ofCapacity capacity).run (before ++ [.use .addReceiver])
      let place := before.countP (·.attaches)
      before.any (·.closes) = true →
        made.told place after = List.replicate (after.countP (·.reads place)) Received.closed) ∧
    ∀ k steps,
      let others := steps.filter fun step => !step.concerns k
      (∀ j, j ≠ k → (ofCapacity capacity).told j steps = (ofCapacity capacity).told j others) ∧
      ((ofCapacity capacity).run steps).listeners = ((ofCapacity capacity).run others).listeners ∧
      ((ofCapacity capacity).run steps).subscribed =
        ((ofCapacity capacity).run others).subscribed := by
  let new := ofCapacity capacity
  have hmade : ∀ before : List HubStep,
      (new.run (before ++ [.use .addReceiver])).Awaits (before.countP (·.attaches)) [] ∧
        (new.run (before ++ [.use .addReceiver])).stream.closed = before.any (·.closes) := by
    intro before
    have hplace : (new.run before).receivers.length = before.countP (·.attaches) :=
      (length_receivers_run new before).trans (Nat.zero_add _)
    have hclosed : (new.run before).stream.closed = before.any (·.closes) :=
      (closed_run new before).trans (Bool.false_or _)
    rw [run_append]
    exact ⟨hplace ▸ awaits_receiver _, hclosed⟩
  refine ⟨Broadcast.kept_ofCapacity capacity, ?_, ?_, fun k steps => ?_⟩
  · intro before now after kept made place closed reads
    obtain ⟨hawaits, hclosed⟩ := hmade before
    obtain ⟨heard, unheard, hawaits', haccounts, hsplit⟩ := hawaits.run now
    have hkept : (made.run now).stream.kept = kept := (kept_run made now).trans (kept_run new _)
    have hended : (made.run now).stream.closed = closed := by
      rw [closed_run, hclosed]
      exact List.any_append.symm
    rw [List.nil_append, hclosed] at hsplit
    refine ⟨heard, unheard, hsplit.symm, haccounts, ?_, fun hclosed => ?_⟩
    · rw [hawaits'.receive, hkept, hended]
    · rw [told_of_closed (hended.trans hclosed) hawaits', hkept]
  · intro before after made place hend
    obtain ⟨hawaits, hclosed⟩ := hmade before
    rw [told_of_closed (hclosed.trans hend) hawaits, Broadcast.outlook_nil, List.nil_append,
      List.take_replicate, Nat.min_self]
  · have hsame : Beside k new new := ⟨rfl, rfl, rfl, rfl, rfl, fun _ _ => rfl⟩
    obtain ⟨hrun, htold⟩ := hsame.run steps
    exact ⟨htold, hrun.listeners, hrun.subscribed⟩

/-- The only receiver is read after the third event and, with one more event gone, after the
fourth, until the hub is closed. -/
def slowReceiver : List HubStep :=
  [.publish (gone 1), .publish (gone 2), .publish (gone 3), .use (.receive 0), .publish (gone 4),
    .use (.receive 0), .use (.receive 0), .close, .publish (gone 5)]

/-- If two events are kept, the receiver is told twice that it has missed one. One event is left for
it when the hub is closed. -/
theorem told_in_order_slowReceiver :
    ∃ heard unheard, heard ++ unheard = [gone 1, gone 2, gone 3, gone 4] ∧
      Accounts [.lagged 1, .lagged 1, .message (gone 3)] heard ∧
      Broadcast.next 2 true unheard = .message (gone 4) ∧
      (Broadcast.outlook 2 unheard ++ List.replicate 3 Received.closed).take 3 =
        [.message (gone 4), .closed, .closed] := by
  have htold : ((ofCapacity 2).run [.use .addReceiver]).told 0 slowReceiver =
      [.lagged 1, .lagged 1, .message (gone 3)] := by decide +kernel
  have hkept : (ofCapacity 2).stream.kept = 2 := by decide +kernel
  have hnext : ((((ofCapacity 2).run [.use .addReceiver]).run slowReceiver).receive 0).1 =
      .message (gone 4) := by decide +kernel
  have hleft : (((ofCapacity 2).run [.use .addReceiver]).run slowReceiver).told 0
      (List.replicate 3 (.use (.receive 0))) = [.message (gone 4), .closed, .closed] := by
    decide +kernel
  obtain ⟨heard, unheard, hsplit, haccounts, hnext', hleft'⟩ :=
    (told_in_order 2).2.1 [] slowReceiver (List.replicate 3 (.use (.receive 0)))
  refine ⟨heard, unheard, hsplit, htold ▸ haccounts, ?_, ?_⟩
  · exact hkept ▸ hnext'.symm.trans hnext
  · exact hkept ▸ (hleft' rfl).symm.trans hleft

end EventHub

end BleHost
