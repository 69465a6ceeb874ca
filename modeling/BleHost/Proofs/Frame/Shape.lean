import BleHost.Proofs.Frame.Segments

/-!
# The states of an assembler

However an assembler is used, with bytes and chunks and a reset now and then, what it has collected
is the beginning of a frame, and the length it expects is the one that this frame announces
(`Shape`). A byte does one of three things to such an assembler (`Shape.push_cases`): it is
collected, or it discards what was collected together with itself, or it completes a frame, whose
bytes are those that were collected and this one. Hence the buffer never fills up
(`in_shape_after_uses`).
-/

namespace BleHost

namespace Assembler

variable {a : Assembler} {byte : UInt8} {bytes : List UInt8} {f : Frame}

/-! ### Beginnings of frames -/

/-- What an assembler may have collected: nothing, the first byte of a header, or the two first
bytes of a header and less of what follows them than they announce. -/
inductive Shape : Assembler → Prop
  | idle (resyncs : Nat) : Shape ⟨[], 0, resyncs⟩
  | begun {kind : UInt8} (isKind : Frame.isKindByte kind = true) (resyncs : Nat) :
    Shape ⟨[kind], 0, resyncs⟩
  | announced {kind length : UInt8} {body : List UInt8} (isKind : Frame.isKindByte kind = true)
    (fits : length.toNat ≤ Frame.maxPayload) (isShort : body.length < length.toNat + 2)
    (resyncs : Nat) :
    Shape ⟨kind :: length :: body, Frame.headerLength + length.toNat, resyncs⟩

namespace Shape

theorem expected_of_pending_le_one (h : a.Shape) (h1 : a.pending ≤ 1) : a.expected = 0 := by
  cases h with
  | idle resyncs => rfl
  | begun isKind resyncs => rfl
  | announced isKind fits isShort resyncs => simp [pending] at h1

/-- Two bytes are enough to know how long the frame is. -/
theorem expected_of_two {kind length : UInt8} {body : List UInt8} (h : a.Shape)
    (hc : a.collected = kind :: length :: body) :
    a.expected = Frame.headerLength + length.toNat := by
  cases h with
  | idle resyncs => cases hc
  | begun isKind resyncs => cases hc
  | announced isKind fits isShort resyncs =>
    cases hc
    rfl

/-- A length that is known is that of a frame of which something is missing. -/
theorem expected_bounds (h : a.Shape) (h2 : 2 ≤ a.pending) :
    Frame.headerLength ≤ a.expected ∧ a.expected ≤ Frame.maxLength ∧ a.pending < a.expected := by
  cases h with
  | idle resyncs => simp [pending] at h2
  | begun isKind resyncs => simp [pending] at h2
  | announced isKind fits isShort resyncs =>
    have hmax : Frame.maxPayload = 60 := rfl
    simp only [pending, List.length_cons, Frame.headerLength, Frame.maxLength]
    omega

theorem pending_lt (h : a.Shape) : a.pending < Frame.maxLength := by
  by_cases h2 : 2 ≤ a.pending
  · obtain ⟨-, hm, hlt⟩ := h.expected_bounds h2
    omega
  · simp only [Frame.maxLength]
    omega

theorem isKindByte_head {kind : UInt8} {rest : List UInt8} (h : a.Shape)
    (hc : a.collected = kind :: rest) : Frame.isKindByte kind = true := by
  cases h with
  | idle resyncs => cases hc
  | begun isKind resyncs =>
    cases hc
    exact isKind
  | announced isKind fits isShort resyncs =>
    cases hc
    exact isKind

/-! ### One byte, and all others -/

/-- **What a byte does**: it is collected, or it discards what was collected together with itself,
or it completes a frame together with what was collected. -/
theorem push_cases (h : a.Shape) (byte : UInt8) :
    (∃ a' : Assembler, a'.Shape ∧ a'.collected = a.collected ++ [byte] ∧ a'.resyncs = a.resyncs ∧
      a.push byte = (a', none)) ∨
    a.push byte = (a.discard, none) ∨
    ∃ f : Frame, f.payload.length ≤ Frame.maxPayload ∧ f.bytes = a.collected ++ [byte] ∧
      a.push byte = (a.reset, some f) := by
  have hmax : Frame.maxPayload = 60 := rfl
  cases h with
  | idle resyncs =>
    by_cases hk : Frame.isKindByte byte = true
    · exact .inl ⟨_, .begun hk resyncs, rfl, rfl, push_kind rfl hk⟩
    · exact .inr (.inl (push_noise rfl (by simpa using hk)))
  | begun isKind resyncs =>
    by_cases hl : byte.toNat ≤ Frame.maxPayload
    · exact .inl ⟨_, .announced isKind hl (by simp) resyncs, rfl, rfl, push_length rfl hl⟩
    · exact .inr (.inl (push_excess rfl (by omega)))
  | @announced kind length body isKind fits isShort resyncs =>
    have h2 : 2 ≤ pending ⟨kind :: length :: body, Frame.headerLength + length.toNat, resyncs⟩ := by
      simp [pending]
    obtain ⟨h4, hm, -⟩ := (announced isKind fits isShort resyncs).expected_bounds h2
    have hbody : (body ++ [byte]).length = body.length + 1 := by simp
    by_cases hlast : body.length + 1 = length.toNat + 2
    · obtain ⟨f, hf, hbytes⟩ := Frame.exists_bytes_eq isKind fits (hbody.trans hlast)
      refine .inr (.inr ⟨f, hf, hbytes, ?_⟩)
      rw [push_complete h2 h4 hm]
      · show (_, Frame.ofBytes? (kind :: length :: (body ++ [byte]))) = _
        rw [← hbytes, Frame.ofBytes?_bytes]
      · simp only [pending, List.length_cons, Frame.headerLength]
        omega
    · have hshort : (body ++ [byte]).length < length.toNat + 2 := by omega
      refine .inl ⟨_, .announced isKind fits hshort resyncs, rfl, rfl, ?_⟩
      rw [push_incomplete h2 hm]
      · rfl
      · simp only [pending, List.length_cons, Frame.headerLength]
        omega

theorem push (h : a.Shape) (byte : UInt8) : (a.push byte).1.Shape := by
  obtain ⟨a', ha', -, -, hpush⟩ | hpush | ⟨f, -, -, hpush⟩ := h.push_cases byte
  · rwa [hpush]
  · rw [hpush]
    exact .idle _
  · rw [hpush]
    exact .idle _

/-- A frame that a byte completes was there, but for this byte. -/
theorem bytes_of_push (h : a.Shape) (hf : (a.push byte).2 = some f) :
    f.payload.length ≤ Frame.maxPayload ∧ f.bytes = a.collected ++ [byte] := by
  obtain ⟨a', -, -, -, hpush⟩ | hpush | ⟨f', hfits, hbytes, hpush⟩ := h.push_cases byte
  · rw [hpush] at hf
    cases hf
  · rw [hpush] at hf
    cases hf
  · rw [hpush] at hf
    cases hf
    exact ⟨hfits, hbytes⟩

theorem feed (h : a.Shape) (bytes : List UInt8) : (a.feed bytes).1.Shape := by
  induction bytes generalizing a with
  | nil => exact h
  | cons byte bytes ih => exact ih (h.push byte)

end Shape

/-- Each frame is completed by one of the bytes. -/
theorem exists_push_of_mem_feed (h : f ∈ (a.feed bytes).2) :
    ∃ before byte rest, bytes = before ++ byte :: rest ∧
      ((a.feed before).1.push byte).2 = some f := by
  induction bytes generalizing a with
  | nil => cases h
  | cons byte bytes ih =>
    rw [feed_cons, List.mem_append] at h
    obtain h | h := h
    · exact ⟨[], byte, bytes, rfl, by simpa using h⟩
    · obtain ⟨before, byte', rest, rfl, hpush⟩ := ih h
      exact ⟨byte :: before, byte', rest, rfl, hpush⟩

/-! ### Whole lives -/

/-- What may be done with an assembler. -/
inductive Use
  | take (d : Delivery)
  | reset
deriving DecidableEq, Repr

/-- The assembler after a use. -/
def use (a : Assembler) : Use → Assembler
  | .take d => (a.take d).1
  | .reset => a.reset

/-- A new assembler after some uses. -/
def after (uses : List Use) : Assembler := uses.foldl use {}

theorem Shape.use (h : a.Shape) (u : Use) : (a.use u).Shape := by
  cases u with
  | take d =>
    rw [Assembler.use, take_eq_feed]
    exact h.feed d.bytes
  | reset => exact .idle _

theorem shape_after (uses : List Use) : (after uses).Shape := by
  have key : ∀ a : Assembler, a.Shape → (uses.foldl Assembler.use a).Shape := by
    induction uses with
    | nil => exact fun a h => h
    | cons u uses ih => exact fun a h => ih _ (h.use u)
  exact key {} (.idle 0)

/-- An assembler with nothing collected reads a stream as a new one does; only the count of what it
has discarded before is still there. -/
theorem takeAll_of_collected_eq_nil (ha : a.collected = []) (ds : List Delivery) :
    (a.takeAll ds).2 = (takeAll {} ds).2 ∧ (a.takeAll ds).1.pending = (takeAll {} ds).1.pending ∧
      (a.takeAll ds).1.resyncs = a.resyncs + (takeAll {} ds).1.resyncs := by
  rw [takeAll_eq_feed, takeAll_eq_feed]
  obtain ⟨segments, rest, hu, hs⟩ := Segment.exists_segmentation (ds.flatMap Delivery.bytes)
  obtain ⟨hframes, hpending, hresyncs⟩ := feed_segmented ha segments hu
  obtain ⟨hframes', hpending', hresyncs'⟩ := feed_segmented (a := {}) rfl segments hu
  rw [← hs, hframes, hframes', hpending, hpending', hresyncs, hresyncs', Nat.zero_add]
  exact ⟨rfl, rfl, rfl⟩

/-- **The buffer of an assembler never fills up.** Whatever has been done with an assembler, it has
collected at most 63 bytes. With one byte or none it expects no length yet; with two or more it
expects the length that the second one announces, which is that of a frame and has not been reached;
and the first of them can begin a frame. So no byte ever meets a full buffer. A frame that comes out
consists of what was collected and the byte that completed it, with as many bytes of payload, at
most 60, as its length byte says. After a reset the assembler goes on like a new one, with the same
count of what has been discarded. -/
theorem in_shape_after_uses (uses : List Use) :
    let a := after uses
    a.pending ≤ 63 ∧
    (a.pending ≤ 1 → a.expected = 0) ∧
    (∀ kind length body, a.collected = kind :: length :: body →
      a.expected = 4 + length.toNat ∧ 4 ≤ a.expected ∧ a.expected ≤ 64 ∧ a.pending < a.expected) ∧
    (∀ kind rest, a.collected = kind :: rest → kind &&& 0x7F = 0) ∧
    (∀ byte, ¬ Frame.maxLength ≤ a.pending ∧ a.push byte = a.place byte) ∧
    (∀ d f, f ∈ (a.take d).2 → ∃ before byte rest kind length,
      d.bytes = before ++ byte :: rest ∧
      (a.feed before).1.collected ++ [byte] =
        kind :: length :: f.id.classId :: f.id.commandId :: f.payload ∧
      f.payload.length = length.toNat ∧ f.payload.length ≤ 60) ∧
    a.reset.pending = 0 ∧ a.reset.expected = 0 ∧ a.reset.resyncs = a.resyncs ∧
    ∀ ds, (a.reset.takeAll ds).2 = (takeAll {} ds).2 ∧
      (a.reset.takeAll ds).1.pending = (takeAll {} ds).1.pending ∧
      (a.reset.takeAll ds).1.resyncs = a.resyncs + (takeAll {} ds).1.resyncs := by
  intro a
  have h : a.Shape := shape_after uses
  have hlt : a.pending < Frame.maxLength := h.pending_lt
  refine ⟨Nat.le_of_lt_succ hlt, h.expected_of_pending_le_one, ?_, ?_, ?_, ?_, rfl, rfl, rfl,
    takeAll_of_collected_eq_nil rfl⟩
  · intro kind length body hc
    obtain ⟨h4, hm, hpending⟩ := h.expected_bounds (by simp [pending, hc])
    exact ⟨h.expected_of_two hc, h4, hm, hpending⟩
  · intro kind rest hc
    exact beq_iff_eq.1 (h.isKindByte_head hc)
  · exact fun byte => ⟨Nat.not_le.2 hlt, push_of_pending_lt hlt⟩
  · intro d f hf
    rw [take_eq_feed] at hf
    obtain ⟨before, byte, rest, hd, hpush⟩ := exists_push_of_mem_feed hf
    obtain ⟨hfits, hbytes⟩ := (h.feed before).bytes_of_push hpush
    exact ⟨before, byte, rest, Frame.kindByte f.id.isEvent, UInt8.ofNat f.payload.length, hd,
      hbytes.symm, (Frame.toNat_lengthByte hfits).symm, hfits⟩

/-- So many bytes are collected of a frame of the greatest length that lacks its last one. -/
example : (after [.take (.chunk [0x80, 0x3C]), .take (.chunk (List.replicate 61 0))]).pending =
    63 := by
  decide

end Assembler

end BleHost
