import BleHost.Proofs.Frame.Shape

/-!
# Recovery from noise

A byte that can neither begin a frame nor be the length of one does no more harm than to end up in
the frame in progress. That frame is full after at most 62 such bytes (`Shape.exists_clear`), all
further ones are discarded one by one (`feed_stray`), and what follows them is read as if nothing
had been before (`recovers_from_noise`).
-/

namespace BleHost

namespace Assembler

variable {a : Assembler} {bytes : List UInt8}

/-- Whether a byte has no place at the beginning of a header: neither as its first byte nor as the
length. -/
def IsStray (byte : UInt8) : Prop :=
  Frame.isKindByte byte = false ∧ Frame.maxPayload < byte.toNat

theorem isStray_allOnes : IsStray 0xFF := by
  constructor <;> decide

/-- Between frames stray bytes are discarded. -/
theorem feed_stray (ha : a.collected = []) (hstray : ∀ byte ∈ bytes, IsStray byte) :
    (a.feed bytes).2 = [] ∧ (a.feed bytes).1.collected = [] := by
  induction bytes generalizing a with
  | nil => exact ⟨rfl, ha⟩
  | cons byte bytes ih =>
    obtain ⟨hbyte, hbytes⟩ := List.forall_mem_cons.1 hstray
    rw [feed_cons_of_push (push_noise ha hbyte.1)]
    exact ih rfl hbytes

/-- The frame in progress, or what has been taken for one, is done away with by the first of so many
stray bytes. -/
theorem Shape.exists_clear (h : a.Shape) (hstray : ∀ byte ∈ bytes, IsStray byte)
    (hmany : 62 ≤ bytes.length) :
    ∃ first rest, bytes = first ++ rest ∧ (a.feed first).2.length ≤ 1 ∧
      (a.feed first).1.collected = [] := by
  by_cases h2 : 2 ≤ a.pending
  · -- the frame lacks at most 62 bytes, whatever they are
    obtain ⟨h4, hm, hlt⟩ := h.expected_bounds h2
    have hmax : Frame.maxLength = 64 := rfl
    obtain ⟨first, rest, rfl, hlength⟩ :
        ∃ first rest, bytes = first ++ rest ∧ a.pending + first.length = a.expected := by
      refine ⟨bytes.take (a.expected - a.pending), _, (List.take_append_drop _ _).symm, ?_⟩
      rw [List.length_take]
      omega
    have hne : first ≠ [] := List.ne_nil_of_length_pos (by omega)
    refine ⟨first, rest, rfl, ?_, ?_⟩
    · rw [feed_complete h2 h4 hm hne hlength]
      exact Option.length_toList_le
    · rw [feed_complete h2 h4 hm hne hlength]
      rfl
  · cases h with
    | idle resyncs => exact ⟨[], bytes, rfl, Nat.zero_le 1, rfl⟩
    | @begun kind isKind resyncs =>
      obtain _ | ⟨byte, bytes⟩ := bytes
      · simp at hmany
      · have hpush := push_excess (a := ⟨[kind], 0, resyncs⟩) rfl (hstray byte List.mem_cons_self).2
        refine ⟨[byte], bytes, rfl, ?_, ?_⟩
        · rw [feed_cons_of_push hpush]
          exact Nat.zero_le 1
        · rw [feed_cons_of_push hpush]
          rfl
    | announced isKind fits isShort resyncs => simp [pending] at h2

/-- From any moment on, enough stray bytes give one frame at most and leave nothing pending. -/
theorem Shape.feed_stray (h : a.Shape) (hstray : ∀ byte ∈ bytes, IsStray byte)
    (hmany : 62 ≤ bytes.length) :
    (a.feed bytes).2.length ≤ 1 ∧ (a.feed bytes).1.collected = [] := by
  obtain ⟨first, rest, rfl, hframes, hcollected⟩ := h.exists_clear hstray hmany
  obtain ⟨hframes', hcollected'⟩ := Assembler.feed_stray hcollected
    (fun byte hbyte => hstray byte (List.mem_append_right first hbyte))
  rw [feed_append, hframes', List.append_nil]
  exact ⟨hframes, hcollected'⟩

/-- Between frames, the bytes of frames give these frames. -/
theorem feed_frames (ha : a.collected = []) {frames : List Frame}
    (hfits : ∀ f ∈ frames, f.payload.length ≤ Frame.maxPayload) :
    (a.feed (frames.flatMap Frame.bytes)).2 = frames ∧
      (a.feed (frames.flatMap Frame.bytes)).1.collected = [] ∧
      (a.feed (frames.flatMap Frame.bytes)).1.resyncs = a.resyncs := by
  induction frames generalizing a with
  | nil => exact ⟨rfl, ha, rfl⟩
  | cons f frames ih =>
    obtain ⟨hf, hframes⟩ := List.forall_mem_cons.1 hfits
    obtain ⟨ihframes, ihcollected, ihresyncs⟩ := ih (a := a.reset) rfl hframes
    rw [List.flatMap_cons, feed_append, feed_frame_bytes ha hf]
    exact ⟨congrArg (f :: ·) ihframes, ihcollected, ihresyncs⟩

/-- **An assembler recovers from whatever state it is in.** Whatever has been done with it, 62 or
more bytes `0xFF`, delivered in any way, give one frame at most and leave nothing pending; and of
the bytes of frames that follow, in any pieces, nothing is lost: just these frames come out, and
nothing is discarded. -/
theorem recovers_from_noise (uses : List Use) {n : Nat} (hmany : 62 ≤ n)
    {noise encodings : List Delivery} {frames : List Frame}
    (hnoise : noise.flatMap Delivery.bytes = List.replicate n 0xFF)
    (hfits : ∀ f ∈ frames, f.payload.length ≤ Frame.maxPayload)
    (hencodings : encodings.flatMap Delivery.bytes = frames.flatMap Frame.bytes) :
    let a := ((after uses).takeAll noise).1
    ((after uses).takeAll noise).2.length ≤ 1 ∧ a.pending = 0 ∧
      (a.takeAll encodings).2 = frames ∧ (a.takeAll encodings).1.pending = 0 ∧
      (a.takeAll encodings).1.resyncs = a.resyncs := by
  have hstray : ∀ byte ∈ List.replicate n 0xFF, IsStray byte := fun byte hbyte =>
    List.eq_of_mem_replicate hbyte ▸ isStray_allOnes
  obtain ⟨hone, hcollected⟩ := (shape_after uses).feed_stray hstray
    (by rwa [List.length_replicate])
  intro a
  have ha : a = ((after uses).feed (List.replicate n 0xFF)).1 := by
    rw [← hnoise, ← takeAll_eq_feed]
  obtain ⟨hframes, hcollected', hresyncs⟩ := feed_frames (ha ▸ hcollected) hfits
  rw [takeAll_eq_feed a, hencodings, takeAll_eq_feed, hnoise]
  exact ⟨hone, List.length_eq_zero_iff.2 (ha ▸ hcollected), hframes,
    List.length_eq_zero_iff.2 hcollected', hresyncs⟩

/-- A header that announces 60 bytes of payload has just been begun after a reset, and 62 bytes of
noise arrive in three pieces: they complete a frame, and the event and the response that follow are
found. -/
theorem recovers_from_noise_longest :
    62 ≤ 62 ∧
    [.chunk (List.replicate 60 0xFF), .byte 0xFF, .byte 0xFF].flatMap Delivery.bytes =
      List.replicate 62 0xFF ∧
    (∀ f ∈ ([⟨⟨0x03, 0x04, true⟩, [0x13]⟩, ⟨⟨0x00, 0x01, false⟩, []⟩] : List Frame),
      f.payload.length ≤ Frame.maxPayload) ∧
    [.chunk [0x80, 0x01, 0x03, 0x04, 0x13, 0x00], .chunk [0x00, 0x00, 0x01]].flatMap
        Delivery.bytes =
      [⟨⟨0x03, 0x04, true⟩, [0x13]⟩, ⟨⟨0x00, 0x01, false⟩, []⟩].flatMap Frame.bytes ∧
    let a := ((after [.take (.byte 0x00), .reset, .take (.chunk [0x00, 0x3C])]).takeAll
      [.chunk (List.replicate 60 0xFF), .byte 0xFF, .byte 0xFF]).1
    ((after [.take (.byte 0x00), .reset, .take (.chunk [0x00, 0x3C])]).takeAll
      [.chunk (List.replicate 60 0xFF), .byte 0xFF, .byte 0xFF]).2.length ≤ 1 ∧ a.pending = 0 ∧
    (a.takeAll [.chunk [0x80, 0x01, 0x03, 0x04, 0x13, 0x00], .chunk [0x00, 0x00, 0x01]]).2 =
      [⟨⟨0x03, 0x04, true⟩, [0x13]⟩, ⟨⟨0x00, 0x01, false⟩, []⟩] ∧
    (a.takeAll [.chunk [0x80, 0x01, 0x03, 0x04, 0x13, 0x00], .chunk [0x00, 0x00, 0x01]]).1.pending =
      0 ∧
    (a.takeAll [.chunk [0x80, 0x01, 0x03, 0x04, 0x13, 0x00], .chunk [0x00, 0x00, 0x01]]).1.resyncs =
      a.resyncs := by
  have hnoise : [.chunk (List.replicate 60 0xFF), .byte 0xFF, .byte 0xFF].flatMap Delivery.bytes =
      List.replicate 62 0xFF := by decide
  have hfits : ∀ f ∈ ([⟨⟨0x03, 0x04, true⟩, [0x13]⟩, ⟨⟨0x00, 0x01, false⟩, []⟩] : List Frame),
      f.payload.length ≤ Frame.maxPayload := by decide
  have hencodings : [.chunk [0x80, 0x01, 0x03, 0x04, 0x13, 0x00],
      .chunk [0x00, 0x00, 0x01]].flatMap Delivery.bytes =
      [⟨⟨0x03, 0x04, true⟩, [0x13]⟩, ⟨⟨0x00, 0x01, false⟩, []⟩].flatMap Frame.bytes := by decide
  exact ⟨Nat.le_refl 62, hnoise, hfits, hencodings,
    recovers_from_noise [.take (.byte 0x00), .reset, .take (.chunk [0x00, 0x3C])] (Nat.le_refl 62)
      hnoise hfits hencodings⟩

/-- A byte less may be too few. -/
example : ((after [.take (.chunk [0x00, 0x3C])]).feed (List.replicate 61 0xFF)).1.pending = 63 := by
  decide

end Assembler

end BleHost
