import BleHost.Proofs.Session.Run

/-!
# Reading a stream to its end

What is left for a receiver of a broadcast stream (`Broadcast.remainder`): the word that it has
fallen behind, if it has, and the messages that are still kept for it. A receiver of a closed stream
that asks again and again gets that and then, for good, that there is nothing any more
(`Broadcast.receiveTimes_of_closed`). What listeners are given, now or later, changes only when
something is published (`EventHub.given_use`).
-/

namespace BleHost

namespace Broadcast

variable {b : Broadcast}

/-- What a receiver gets when it asks several times. -/
def receiveTimes (b : Broadcast) (position : Nat) : Nat → List Received
  | 0 => []
  | times + 1 => (b.receive position).1 :: b.receiveTimes (b.receive position).2 times

/-- What is left for a receiver. -/
def remainder (b : Broadcast) (position : Nat) : List Received :=
  (if position + b.kept < b.tail then [.lagged (b.tail - b.kept - position)] else []) ++
    (b.published.drop (max position (b.tail - b.kept))).map Received.message

/-- A new receiver has nothing to look forward to. -/
theorem remainder_tail (b : Broadcast) : b.remainder b.tail = [] := by
  have hnot : ¬ b.tail + b.kept < b.tail := by omega
  have hmax : max b.tail (b.tail - b.kept) = b.published.length := Nat.max_eq_left (Nat.sub_le _ _)
  rw [remainder, if_neg hnot, hmax, List.drop_length, List.map_nil, List.nil_append]

/-- How much is added behind a list makes no difference to what is taken from it. -/
theorem take_append_replicate {α : Type} (l : List α) (a : α) {times more : Nat}
    (hmore : times ≤ more) :
    (l ++ List.replicate more a).take times = (l ++ List.replicate times a).take times := by
  have hmin : min (times - l.length) more = min (times - l.length) times := by omega
  rw [List.take_append, List.take_append, List.take_replicate, List.take_replicate, hmin]

/-- A receiver that has not fallen behind gets the messages that it has not had yet. -/
theorem receiveTimes_of_not_behind (hclosed : b.closed = true) {position : Nat}
    (hkept : b.tail ≤ position + b.kept) (times : Nat) :
    b.receiveTimes position times =
      ((b.published.drop position).map Received.message ++
        List.replicate times Received.closed).take times := by
  induction times generalizing position with
  | zero => rfl
  | succ times ih =>
    have hbehind : ¬ position + b.kept < b.tail := by omega
    rw [receiveTimes, receive, if_neg hbehind]
    rcases hget : b.published[position]? with _ | m
    · have hdrop : b.published.drop position = [] :=
        List.drop_eq_nil_of_le (List.getElem?_eq_none_iff.1 hget)
      dsimp only
      rw [ih hkept, hdrop, if_pos hclosed, List.map_nil, List.nil_append, List.nil_append,
        List.replicate_succ, List.take_succ_cons]
    · obtain ⟨hlt, hget⟩ := List.getElem?_eq_some_iff.1 hget
      dsimp only
      rw [ih (by omega), List.drop_eq_getElem_cons hlt, hget, List.map_cons, List.cons_append,
        List.take_succ_cons, take_append_replicate _ _ (Nat.le_succ times)]

/-- A receiver of a closed stream gets what is left for it, and then that there is nothing any
more. -/
theorem receiveTimes_of_closed (hclosed : b.closed = true) (position times : Nat) :
    b.receiveTimes position times =
      (b.remainder position ++ List.replicate times Received.closed).take times := by
  by_cases hbehind : position + b.kept < b.tail
  · cases times with
    | zero => rfl
    | succ times =>
      have hmax : max position (b.tail - b.kept) = b.tail - b.kept := by omega
      have hkept : b.tail ≤ b.tail - b.kept + b.kept := by omega
      rw [receiveTimes, receive, if_pos hbehind, remainder, if_pos hbehind, hmax]
      dsimp only
      rw [receiveTimes_of_not_behind hclosed hkept, List.append_assoc, List.singleton_append,
        List.take_succ_cons, take_append_replicate _ _ (Nat.le_succ times)]
  · have hmax : max position (b.tail - b.kept) = position := by omega
    rw [receiveTimes_of_not_behind hclosed (by omega), remainder, if_neg hbehind, hmax,
      List.nil_append]

end Broadcast

namespace EventHub

variable {h : EventHub} {index : Nat}

/-! ### The stream -/

@[simp] theorem stream_afterReaction (h : EventHub) (id : Nat) (reaction : Reaction) :
    (h.afterReaction id reaction).stream = h.stream := by
  cases reaction <;> rfl

/-- Whoever uses a hub leaves the stream as it is. -/
@[simp] theorem stream_use (h : EventHub) (use : HubUse) :
    (h.use use).stream = h.stream := by
  cases use with
  | deliver index =>
    change (h.deliver index).stream = h.stream
    unfold deliver
    split
    · simp
    · rfl
  | receive index =>
    change (h.receive index).2.stream = h.stream
    unfold receive
    split <;> rfl
  | _ => rfl

@[simp] theorem closed_publish (h : EventHub) (m : Message) :
    (h.publish m).stream.closed = h.stream.closed := by
  unfold publish Broadcast.publish
  dsimp only
  split <;> rfl

/-! ### Receivers -/

/-- What the receiver in place `index` gets when it asks several times. -/
def receiveTimes (h : EventHub) (index : Nat) : Nat → List Received
  | 0 => []
  | times + 1 => (h.receive index).1 :: (h.receive index).2.receiveTimes index times

theorem receiveTimes_eq {r : Receiver} (hr : h.receivers[index]? = some r) (times : Nat) :
    h.receiveTimes index times = h.stream.receiveTimes r.position times := by
  induction times generalizing h r with
  | zero => rfl
  | succ times ih =>
    have hlt := (List.getElem?_eq_some_iff.1 hr).1
    have hreceive : h.receive index = ((h.stream.receive r.position).1,
        { h with
          receivers :=
            h.receivers.set index { r with position := (h.stream.receive r.position).2 } }) := by
      rw [receive, hr]
    rw [receiveTimes, Broadcast.receiveTimes, hreceive,
      ih (r := { r with position := (h.stream.receive r.position).2 })
        (List.getElem?_set_self hlt)]

/-- A receiver of a closed hub reads out what is left for it, and then finds the stream closed. -/
theorem receiveTimes_of_closed (hclosed : h.stream.closed = true) {r : Receiver}
    (hr : h.receivers[index]? = some r) (times : Nat) :
    h.receiveTimes index times =
      (h.stream.remainder r.position ++ List.replicate times Received.closed).take times := by
  rw [receiveTimes_eq hr, Broadcast.receiveTimes_of_closed hclosed]

/-- A receiver that is added to a closed hub finds the stream closed at once. -/
theorem receiveTimes_receiver (hclosed : h.stream.closed = true) (times : Nat) :
    h.receiver.receiveTimes h.receivers.length times = List.replicate times Received.closed := by
  have hr : h.receiver.receivers[h.receivers.length]? = some { position := h.stream.tail } := by
    rw [receiver, List.getElem?_concat_length]
  have hstream : h.receiver.stream = h.stream := rfl
  rw [receiveTimes_of_closed (hstream ▸ hclosed) hr, hstream, Broadcast.remainder_tail,
    List.nil_append, List.take_replicate, Nat.min_self]

/-! ### Listeners -/

/-- What each listener has been handed or still has in its queue. -/
def given (h : EventHub) : List (List Message) := h.listeners.map fun l => l.handled ++ l.queued

theorem given_deliver (h : EventHub) (index : Nat) : (h.deliver index).given = h.given := by
  unfold deliver
  split
  · rename_i id react m queued handled hget
    have hafter : ∀ (h : EventHub) (reaction : Reaction),
        (h.afterReaction id reaction).given = h.given := by
      intro h reaction
      cases reaction <;> rfl
    obtain ⟨hlt, hget⟩ := List.getElem?_eq_some_iff.1 hget
    rw [hafter, given, given, List.map_set]
    apply List.ext_getElem (by simp)
    intro k hk hk'
    rw [List.getElem_set]
    split
    · rename_i heq
      subst heq
      simp [hget]
    · rfl
  · rfl

/-- Whoever uses a hub may add a listener, who has not been given anything. All others have been
given what they had been given before. -/
theorem given_use (h : EventHub) (use : HubUse) :
    ∃ added, (h.use use).given = h.given ++ List.replicate added [] := by
  cases use with
  | subscribe react =>
    refine ⟨1, ?_⟩
    simp [EventHub.use, subscribe, given]
  | deliver index => exact ⟨0, by simp [EventHub.use, given_deliver]⟩
  | receive index =>
    refine ⟨0, ?_⟩
    simp only [EventHub.use, receive, List.replicate_zero, List.append_nil]
    split <;> rfl
  | _ => exact ⟨0, by simp [EventHub.use, unsubscribe, receiver, dropReceiver, given]⟩

end EventHub

end BleHost
