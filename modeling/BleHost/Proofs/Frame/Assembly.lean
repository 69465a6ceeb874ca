import BleHost.Frame.Assembler

/-!
# How the assembler moves

What one byte does to an assembler, by how much of a frame it has collected, and what chunks of
bytes do: feeding is compatible with cutting the stream anywhere (`feed_append`, `takeAll_eq_feed`),
and from a state without collected bytes the bytes of a frame give that frame (`feed_frame_bytes`).
-/

namespace BleHost

namespace Frame

/-! ### Header bytes -/

/-- The two first header bytes are told apart by their top bit. -/
theorem kindByte_announcesEvent {byte : UInt8} (h : isKindByte byte = true) :
    kindByte (announcesEvent byte) = byte := by
  have key : ∀ b : BitVec 8, isKindByte ⟨b⟩ = true → kindByte (announcesEvent ⟨b⟩) = ⟨b⟩ := by
    decide
  exact key byte.toBitVec h

@[simp] theorem isKindByte_kindByte (isEvent : Bool) : isKindByte (kindByte isEvent) = true := by
  cases isEvent <;> decide

@[simp] theorem announcesEvent_kindByte (isEvent : Bool) :
    announcesEvent (kindByte isEvent) = isEvent := by
  cases isEvent <;> decide

theorem kindByte_inj {a b : Bool} (h : kindByte a = kindByte b) : a = b := by
  rw [← announcesEvent_kindByte a, h, announcesEvent_kindByte]

/-- A length byte holds every length that a payload may have. -/
theorem toNat_lengthByte {n : Nat} (h : n ≤ maxPayload) : (UInt8.ofNat n).toNat = n := by
  have : maxPayload < 256 := by decide
  simp only [UInt8.toNat_ofNat']
  omega

@[simp] theorem ofBytes?_bytes (f : Frame) : ofBytes? f.bytes = some f := by
  simp [ofBytes?, bytes]

theorem length_bytes (f : Frame) : f.bytes.length = headerLength + f.payload.length := by
  simp [bytes, headerLength]
  omega

/-- The frame at the beginning of a stream is known from the stream. -/
theorem eq_of_bytes_append {f f' : Frame} {x y : List UInt8}
    (hf : f.payload.length ≤ maxPayload) (hf' : f'.payload.length ≤ maxPayload)
    (h : f.bytes ++ x = f'.bytes ++ y) : f = f' := by
  obtain ⟨⟨classId, commandId, isEvent⟩, payload⟩ := f
  obtain ⟨⟨classId', commandId', isEvent'⟩, payload'⟩ := f'
  simp only [bytes, List.cons_append, List.cons.injEq] at h
  obtain ⟨hkind, hlength, rfl, rfl, hrest⟩ := h
  have hl : payload.length = payload'.length := by
    rw [← toNat_lengthByte hf, ← toNat_lengthByte hf', hlength]
  obtain ⟨rfl, -⟩ := List.append_inj hrest hl
  rw [kindByte_inj hkind]

/-- Whatever follows a header byte and a length that is not too long, as far as that length goes,
makes a frame with them. -/
theorem exists_bytes_eq {kind length : UInt8} {body : List UInt8} (hk : isKindByte kind = true)
    (hl : length.toNat ≤ maxPayload) (hb : body.length = length.toNat + 2) :
    ∃ f : Frame, f.payload.length ≤ maxPayload ∧ f.bytes = kind :: length :: body := by
  obtain _ | ⟨classId, _ | ⟨commandId, payload⟩⟩ := body
  · simp at hb
  · simp at hb
  · have hp : payload.length = length.toNat := by simpa using hb
    refine ⟨⟨⟨classId, commandId, announcesEvent kind⟩, payload⟩, hp ▸ hl, ?_⟩
    simp [bytes, kindByte_announcesEvent hk, hp]

end Frame

namespace Assembler

variable {a : Assembler} {byte : UInt8}

/-! ### One byte -/

theorem push_of_pending_lt (h : a.pending < Frame.maxLength) : a.push byte = a.place byte := by
  simp only [push, if_neg (Nat.not_le.2 h)]

/-- The first byte of a frame. -/
theorem push_kind (ha : a.collected = []) (hk : Frame.isKindByte byte = true) :
    a.push byte = ({ a with collected := [byte] }, none) := by
  rw [push_of_pending_lt (by simp [pending, ha, Frame.maxLength])]
  simp [place, pending, ha, hk, collect, Frame.headerLength]

/-- Noise where a frame should begin. -/
theorem push_noise (ha : a.collected = []) (hk : Frame.isKindByte byte = false) :
    a.push byte = (a.discard, none) := by
  rw [push_of_pending_lt (by simp [pending, ha, Frame.maxLength])]
  simp [place, pending, ha, hk]

/-- The length byte of a frame. -/
theorem push_length {kind : UInt8} (ha : a.collected = [kind])
    (hl : byte.toNat ≤ Frame.maxPayload) :
    a.push byte = ({ a with
      collected := [kind, byte]
      expected := Frame.headerLength + byte.toNat }, none) := by
  rw [push_of_pending_lt (by simp [pending, ha, Frame.maxLength])]
  simp [place, pending, ha, Nat.not_lt.2 hl, collect, Frame.headerLength]

/-- A length that no frame has. -/
theorem push_excess {kind : UInt8} (ha : a.collected = [kind])
    (hl : Frame.maxPayload < byte.toNat) : a.push byte = (a.discard, none) := by
  rw [push_of_pending_lt (by simp [pending, ha, Frame.maxLength])]
  simp [place, pending, ha, hl]

theorem push_body (h2 : 2 ≤ a.pending) (hm : a.pending < Frame.maxLength) :
    a.push byte = a.collect byte := by
  rw [push_of_pending_lt hm]
  unfold place
  split
  · omega
  · omega
  · rfl

/-- An assembler that has collected more of the frame in progress. -/
def collecting (a : Assembler) (bytes : List UInt8) : Assembler :=
  { a with collected := a.collected ++ bytes }

@[simp] theorem pending_collecting (a : Assembler) (bytes : List UInt8) :
    (a.collecting bytes).pending = a.pending + bytes.length := by
  simp [pending, collecting]

@[simp] theorem expected_collecting (a : Assembler) (bytes : List UInt8) :
    (a.collecting bytes).expected = a.expected := rfl

/-- A byte that does not complete the frame in progress is collected. -/
theorem push_incomplete (h2 : 2 ≤ a.pending) (hm : a.expected ≤ Frame.maxLength)
    (hlt : a.pending + 1 < a.expected) : a.push byte = (a.collecting [byte], none) := by
  have hne : a.collected.length + 1 ≠ a.expected := by
    simp only [pending] at hlt
    omega
  rw [push_body h2 (by omega)]
  simp [collect, collecting, hne]

/-- The byte that the frame in progress lacks completes it. -/
theorem push_complete (h2 : 2 ≤ a.pending) (h4 : Frame.headerLength ≤ a.expected)
    (hm : a.expected ≤ Frame.maxLength) (heq : a.pending + 1 = a.expected) :
    a.push byte = (a.reset, Frame.ofBytes? (a.collected ++ [byte])) := by
  have hlen : a.collected.length + 1 = a.expected := heq
  rw [push_body h2 (by omega)]
  simp [collect, hlen, h4, reset]

/-! ### Several bytes -/

@[simp] theorem feed_nil (a : Assembler) : a.feed [] = (a, []) := rfl

theorem feed_cons (a : Assembler) (byte : UInt8) (bytes : List UInt8) :
    a.feed (byte :: bytes) =
      (((a.push byte).1.feed bytes).1,
        (a.push byte).2.toList ++ ((a.push byte).1.feed bytes).2) := rfl

/-- A byte that completes nothing hands over to the rest. -/
theorem feed_cons_of_push {a' : Assembler} (h : a.push byte = (a', none)) (bytes : List UInt8) :
    a.feed (byte :: bytes) = a'.feed bytes := by
  simp [feed_cons, h]

/-- The state carries over a cut in the stream. -/
theorem feed_append (a : Assembler) (x y : List UInt8) :
    a.feed (x ++ y) =
      (((a.feed x).1.feed y).1, (a.feed x).2 ++ ((a.feed x).1.feed y).2) := by
  induction x generalizing a with
  | nil => simp
  | cons byte x ih => simp [feed_cons, ih]

/-- Bytes that do not complete the frame in progress are collected. -/
theorem feed_incomplete (bytes : List UInt8) (h2 : 2 ≤ a.pending)
    (hm : a.expected ≤ Frame.maxLength) (hlt : a.pending + bytes.length < a.expected) :
    a.feed bytes = (a.collecting bytes, []) := by
  induction bytes generalizing a with
  | nil => simp [collecting]
  | cons byte bytes ih =>
    simp only [List.length_cons] at hlt
    have hp : (a.collecting [byte]).pending = a.pending + 1 := by simp
    rw [feed_cons_of_push (push_incomplete h2 hm (by omega)),
      ih (a := a.collecting [byte]) (by omega) hm (by rw [expected_collecting]; omega)]
    simp [collecting]

/-- The bytes up to the expected length complete the frame in progress. -/
theorem feed_complete {bytes : List UInt8} (h2 : 2 ≤ a.pending)
    (h4 : Frame.headerLength ≤ a.expected) (hm : a.expected ≤ Frame.maxLength)
    (hne : bytes ≠ []) (heq : a.pending + bytes.length = a.expected) :
    a.feed bytes = (a.reset, (Frame.ofBytes? (a.collected ++ bytes)).toList) := by
  obtain ⟨init, last, rfl⟩ : ∃ init last, bytes = init ++ [last] :=
    ⟨bytes.dropLast, bytes.getLast hne, (List.dropLast_concat_getLast hne).symm⟩
  simp only [List.length_append, List.length_singleton] at heq
  have hp : (a.collecting init).pending = a.pending + init.length := pending_collecting a init
  have hlast : (a.collecting init).push last =
      (a.reset, Frame.ofBytes? (a.collected ++ (init ++ [last]))) := by
    rw [push_complete (a := a.collecting init) (by omega) h4 hm
      (by rw [hp, expected_collecting]; omega)]
    simp [collecting, reset]
  rw [feed_append, feed_incomplete init h2 hm (by omega)]
  simp [feed_cons, hlast]

/-- The bytes of a frame give that frame and leave nothing behind. -/
theorem feed_frame_bytes (ha : a.collected = []) {f : Frame}
    (hf : f.payload.length ≤ Frame.maxPayload) : a.feed f.bytes = (a.reset, [f]) := by
  have hlen := Frame.toNat_lengthByte hf
  have hmax : Frame.maxPayload = 60 := rfl
  simp only [Frame.bytes]
  rw [feed_cons_of_push (push_kind ha (Frame.isKindByte_kindByte _)),
    feed_cons_of_push (push_length rfl (by omega))]
  -- two bytes are collected, and the expected length is that of the frame
  rw [feed_complete]
  · simp [reset, Frame.ofBytes?]
  · simp [pending]
  · simp
  · simp only [hlen, Frame.headerLength, Frame.maxLength]
    omega
  · simp
  · simp only [pending, hlen, Frame.headerLength, List.length_cons, List.length_nil]
    omega

/-! ### Bytes and chunks -/

/-- A way in which bytes reach an assembler: one byte, or a chunk of them. -/
inductive Delivery
  | byte (byte : UInt8)
  | chunk (bytes : List UInt8)
deriving DecidableEq, Repr

/-- The bytes that are delivered. -/
def Delivery.bytes : Delivery → List UInt8
  | .byte b => [b]
  | .chunk bytes => bytes

/-- Take what is delivered. -/
def take (a : Assembler) : Delivery → Assembler × List Frame
  | .byte b => ((a.push b).1, (a.push b).2.toList)
  | .chunk bytes => a.feed bytes

/-- Take one delivery after another. -/
def takeAll (a : Assembler) : List Delivery → Assembler × List Frame
  | [] => (a, [])
  | d :: ds => (((a.take d).1.takeAll ds).1, (a.take d).2 ++ ((a.take d).1.takeAll ds).2)

theorem take_eq_feed (a : Assembler) (d : Delivery) : a.take d = a.feed d.bytes := by
  cases d with
  | byte b => simp [take, Delivery.bytes, feed_cons]
  | chunk bytes => rfl

/-- However the bytes are delivered, the same comes of them. -/
theorem takeAll_eq_feed (a : Assembler) (ds : List Delivery) :
    a.takeAll ds = a.feed (ds.flatMap Delivery.bytes) := by
  induction ds generalizing a with
  | nil => rfl
  | cons d ds ih => simp [takeAll, take_eq_feed, ih, feed_append]

end Assembler

end BleHost
