import BleHost.Proofs.Frame.Assembly
import Mathlib.Logic.ExistsUnique
import Mathlib.Data.List.Basic

/-!
# The grammar of the byte stream

A stream is made of segments: the bytes of frames, single bytes with which no frame begins, and
pairs of a first header byte and a length that no frame has. Nothing marks where a segment begins,
yet no segment begins another one (`Segment.eq_of_bytes_append`), so that a stream is segments and
an unfinished one in exactly one way, and that is how the assembler reads it
(`feed_eq_unique_segmentation`).
-/

namespace BleHost

/-- A stretch of the byte stream after which the next frame can begin. -/
inductive Segment
  | frame (f : Frame) (fits : f.payload.length ≤ Frame.maxPayload)
  /-- A byte with which no frame begins. -/
  | noise (byte : UInt8) (isNoise : Frame.isKindByte byte = false)
  /-- A first header byte, and a length that no frame has. -/
  | excess (kind length : UInt8) (isKind : Frame.isKindByte kind = true)
      (isExcess : Frame.maxPayload < length.toNat)

namespace Segment

/-- The bytes of a segment. -/
def bytes : Segment → List UInt8
  | frame f _ => f.bytes
  | noise byte _ => [byte]
  | excess kind length _ _ => [kind, length]

/-- The frame that a segment is, if it is one. -/
def frame? : Segment → Option Frame
  | frame f _ => some f
  | noise _ _ | excess _ _ _ _ => none

/-- Whether a segment is discarded. -/
def isNoise : Segment → Bool
  | frame _ _ => false
  | noise _ _ | excess _ _ _ _ => true

/-- The bytes of several segments. -/
def stream (segments : List Segment) : List UInt8 := segments.flatMap bytes

/-- A segment that has been begun at most: some bytes are missing, and none has been completed. -/
def Unfinished (rest : List UInt8) : Prop :=
  (∃ g : Segment, rest <+: g.bytes ∧ rest ≠ g.bytes) ∧ ∀ g : Segment, ¬ g.bytes <+: rest

theorem bytes_ne_nil (g : Segment) : g.bytes ≠ [] := by
  cases g <;> simp [bytes, Frame.bytes]

/-! ### No segment begins another one -/

/-- The segment at the beginning of a stream is known from the stream. -/
theorem eq_of_bytes_append {g g' : Segment} {x y : List UInt8}
    (h : g.bytes ++ x = g'.bytes ++ y) : g = g' := by
  have hkind := fun isEvent => Frame.isKindByte_kindByte isEvent
  cases g with
  | frame f hf =>
    cases g' with
    | frame f' hf' => simp only [Frame.eq_of_bytes_append hf hf' h]
    | noise byte hn =>
      simp only [bytes, Frame.bytes, List.cons_append, List.cons.injEq] at h
      simp [← h.1] at hn
    | excess kind length hk he =>
      simp only [bytes, Frame.bytes, List.cons_append, List.cons.injEq] at h
      rw [← h.2.1, Frame.toNat_lengthByte hf] at he
      omega
  | noise byte hn =>
    cases g' with
    | frame f' hf' =>
      simp only [bytes, Frame.bytes, List.cons_append, List.cons.injEq] at h
      simp [h.1] at hn
    | noise byte' hn' =>
      simp only [bytes, List.cons_append, List.cons.injEq] at h
      simp only [h.1]
    | excess kind length hk he =>
      simp only [bytes, List.cons_append, List.cons.injEq] at h
      simp [h.1, hk] at hn
  | excess kind length hk he =>
    cases g' with
    | frame f' hf' =>
      simp only [bytes, Frame.bytes, List.cons_append, List.cons.injEq] at h
      rw [h.2.1, Frame.toNat_lengthByte hf'] at he
      omega
    | noise byte hn =>
      simp only [bytes, List.cons_append, List.cons.injEq] at h
      simp [← h.1, hk] at hn
    | excess kind' length' hk' he' =>
      simp only [bytes, List.cons_append, List.cons.injEq] at h
      simp only [h.1, h.2.1]

/-- A segment with a byte less is unfinished, and so is anything else that begins one. -/
theorem unfinished_of_append {rest missing : List UInt8} {g : Segment}
    (h : g.bytes = rest ++ missing) (hne : missing ≠ []) : Unfinished rest := by
  refine ⟨⟨g, ⟨missing, h.symm⟩, fun he => hne ?_⟩, fun g' ⟨x, hx⟩ => hne ?_⟩
  · simpa [← he] using h
  · have hgg : g' = g := eq_of_bytes_append (x := x ++ missing) (y := [])
      (by rw [h, ← hx]; simp)
    have hlen := congrArg List.length (h.trans (by rw [← hx, hgg]))
    simp only [List.length_append] at hlen
    exact List.length_eq_zero_iff.1 (by omega)

/-! ### Every stream has a segmentation -/

/-- Bytes either begin with a segment or are an unfinished one. -/
theorem begins_or_unfinished (input : List UInt8) :
    (∃ (g : Segment) (x : List UInt8), input = g.bytes ++ x) ∨ Unfinished input := by
  obtain _ | ⟨kind, _ | ⟨length, body⟩⟩ := input
  · exact .inr (unfinished_of_append (g := .noise 1 (by decide)) rfl (by simp))
  · by_cases hk : Frame.isKindByte kind = true
    · have hg : (excess kind 61 hk (by decide)).bytes = [kind] ++ [61] := rfl
      exact .inr (unfinished_of_append hg (by simp))
    · exact .inl ⟨.noise kind (by simpa using hk), [], rfl⟩
  · by_cases hk : Frame.isKindByte kind = true
    · by_cases hl : length.toNat ≤ Frame.maxPayload
      · -- the header announces a frame, which is there or not
        by_cases hb : length.toNat + 2 ≤ body.length
        · have hbody : (body.take (length.toNat + 2)).length = length.toNat + 2 := by simp [hb]
          obtain ⟨f, hf, hbytes⟩ := Frame.exists_bytes_eq hk hl hbody
          refine .inl ⟨.frame f hf, body.drop (length.toNat + 2), ?_⟩
          simp [bytes, hbytes]
        · have hbody : (body ++ List.replicate (length.toNat + 2 - body.length) 0).length =
              length.toNat + 2 := by
            simp
            omega
          obtain ⟨f, hf, hbytes⟩ := Frame.exists_bytes_eq hk hl hbody
          refine .inr (unfinished_of_append (g := .frame f hf) (by simpa [bytes] using hbytes) ?_)
          simp only [ne_eq, List.replicate_eq_nil_iff]
          omega
      · exact .inl ⟨.excess kind length hk (by omega), body, rfl⟩
    · exact .inl ⟨.noise kind (by simpa using hk), length :: body, rfl⟩

/-- A stream is segments and an unfinished one. -/
theorem exists_segmentation (input : List UInt8) :
    ∃ (segments : List Segment) (rest : List UInt8),
      Unfinished rest ∧ stream segments ++ rest = input := by
  obtain ⟨g, x, hx⟩ | hu := begins_or_unfinished input
  · have hpos := List.length_pos_of_ne_nil g.bytes_ne_nil
    have hlen : x.length < input.length := by
      rw [hx, List.length_append]
      omega
    obtain ⟨segments, rest, hu, hs⟩ := exists_segmentation x
    exact ⟨g :: segments, rest, hu, by simp [stream, hx, ← hs]⟩
  · exact ⟨[], input, hu, rfl⟩
termination_by input.length

/-- A stream is segments and an unfinished one in one way only. -/
theorem segmentation_unique {segments segments' : List Segment} {rest rest' : List UInt8}
    (hu : Unfinished rest) (hu' : Unfinished rest')
    (h : stream segments ++ rest = stream segments' ++ rest') :
    segments = segments' ∧ rest = rest' := by
  induction segments generalizing segments' with
  | nil =>
    cases segments' with
    | nil => exact ⟨rfl, h⟩
    | cons g' segments' =>
      have hprefix : g'.bytes <+: rest :=
        ⟨stream segments' ++ rest', by simpa [stream] using h.symm⟩
      exact absurd hprefix (hu.2 g')
  | cons g segments ih =>
    cases segments' with
    | nil =>
      have hprefix : g.bytes <+: rest' := ⟨stream segments ++ rest, by simpa [stream] using h⟩
      exact absurd hprefix (hu'.2 g)
    | cons g' segments' =>
      have h' : g.bytes ++ (stream segments ++ rest) = g'.bytes ++ (stream segments' ++ rest') := by
        simpa [stream] using h
      obtain rfl := eq_of_bytes_append h'
      obtain ⟨rfl, rfl⟩ := ih (List.append_cancel_left h')
      exact ⟨rfl, rfl⟩

end Segment

namespace Assembler

open Segment

variable {a : Assembler}

/-! ### How the assembler reads segments -/

/-- A segment gives its frame, or is counted as noise, and leaves nothing behind. -/
theorem feed_segment (ha : a.collected = []) (g : Segment) :
    (a.feed g.bytes).2 = g.frame?.toList ∧ (a.feed g.bytes).1.collected = [] ∧
      (a.feed g.bytes).1.resyncs = a.resyncs + if g.isNoise then 1 else 0 := by
  cases g with
  | frame f hf => simp [bytes, feed_frame_bytes ha hf, frame?, isNoise, reset]
  | noise byte hn => simp [bytes, feed_cons, push_noise ha hn, frame?, isNoise, discard, reset]
  | excess kind length hk he =>
    have hpush := push_excess (a := { a with collected := [kind] }) rfl he
    simp [bytes, feed_cons, push_kind ha hk, hpush, frame?, isNoise, discard, reset]

/-- Segments give their frames in order, are counted where they are noise, and leave nothing
behind. -/
theorem feed_stream (ha : a.collected = []) (segments : List Segment) :
    (a.feed (stream segments)).2 = segments.filterMap frame? ∧
      (a.feed (stream segments)).1.collected = [] ∧
      (a.feed (stream segments)).1.resyncs = a.resyncs + segments.countP isNoise := by
  induction segments generalizing a with
  | nil => simp [stream, ha]
  | cons g segments ih =>
    obtain ⟨hframes, hcollected, hresyncs⟩ := feed_segment ha g
    obtain ⟨ihframes, ihcollected, ihresyncs⟩ := ih hcollected
    have hcons : stream (g :: segments) = g.bytes ++ stream segments := by simp [stream]
    rw [hcons, feed_append]
    refine ⟨?_, ihcollected, ?_⟩
    · rw [hframes, ihframes]
      cases hg : g.frame? <;> simp [hg]
    · rw [ihresyncs, hresyncs, List.countP_cons]
      omega

/-- An unfinished segment is collected. -/
theorem feed_unfinished (ha : a.collected = []) {rest : List UInt8} (hu : Unfinished rest) :
    (a.feed rest).2 = [] ∧ (a.feed rest).1.collected = rest ∧
      (a.feed rest).1.resyncs = a.resyncs := by
  obtain ⟨⟨g, ⟨missing, hg⟩, hne⟩, hnone⟩ := hu
  have hmissing : missing ≠ [] := fun h => hne (by simpa [h] using hg)
  obtain _ | ⟨kind, _ | ⟨length, body⟩⟩ := rest
  · simp [ha]
  · -- a single byte that is no noise begins a frame
    have hk : Frame.isKindByte kind = true := by
      by_contra hk
      exact hnone (.noise kind (by simpa using hk)) (List.prefix_refl _)
    simp [feed_cons, push_kind ha hk]
  · have hk : Frame.isKindByte kind = true := by
      by_contra hk
      exact hnone (.noise kind (by simpa using hk)) ⟨length :: body, rfl⟩
    have hl : length.toNat ≤ Frame.maxPayload := by
      by_contra hl
      exact hnone (.excess kind length hk (by omega)) ⟨body, rfl⟩
    have hb : body.length < length.toNat + 2 := by
      by_contra hb
      have hbody : (body.take (length.toNat + 2)).length = length.toNat + 2 := by
        simp
        omega
      obtain ⟨f, hf, hbytes⟩ := Frame.exists_bytes_eq hk hl hbody
      exact hnone (.frame f hf) ⟨body.drop (length.toNat + 2), by simp [bytes, hbytes]⟩
    have hmax : Frame.maxPayload = 60 := rfl
    rw [feed_cons_of_push (push_kind ha hk), feed_cons_of_push (push_length rfl hl),
      feed_incomplete]
    · simp [collecting]
    · simp [pending]
    · simp only [Frame.headerLength, Frame.maxLength]
      omega
    · simp only [pending, List.length_cons, List.length_nil, Frame.headerLength]
      omega

/-- What the assembler makes of a segmented stream. -/
theorem feed_segmented (ha : a.collected = []) (segments : List Segment) {rest : List UInt8}
    (hu : Unfinished rest) :
    (a.feed (stream segments ++ rest)).2 = segments.filterMap frame? ∧
      (a.feed (stream segments ++ rest)).1.pending = rest.length ∧
      (a.feed (stream segments ++ rest)).1.resyncs = a.resyncs + segments.countP isNoise := by
  obtain ⟨hframes, hcollected, hresyncs⟩ := feed_stream ha segments
  obtain ⟨hframes', hcollected', hresyncs'⟩ := feed_unfinished hcollected hu
  rw [feed_append]
  refine ⟨?_, ?_, ?_⟩
  · rw [hframes, hframes', List.append_nil]
  · rw [pending, hcollected']
  · rw [hresyncs', hresyncs]

/-- The bytes of a frame can be left out of a stream, which then gives the same frames but that
one. -/
theorem feed_remove_frame (ha : a.pending = 0) {input : List UInt8} {before after : List Frame}
    {f : Frame} (h : (a.feed input).2 = before ++ f :: after) :
    ∃ x y, input = x ++ f.bytes ++ y ∧ (a.feed x).2 = before ∧
      (a.feed (x ++ y)).2 = before ++ after := by
  have ha' : a.collected = [] := List.length_eq_zero_iff.1 ha
  obtain ⟨segments, rest, hu, rfl⟩ := exists_segmentation input
  rw [(feed_segmented ha' segments hu).1] at h
  obtain ⟨first, last, rfl, hbefore, hrest⟩ := List.filterMap_eq_append_iff.1 h
  obtain ⟨noise, g, last', rfl, hnoise, hg, hafter⟩ := List.filterMap_eq_cons_iff.1 hrest
  have hbytes : g.bytes = f.bytes := by
    cases g with
    | frame f' hf =>
      cases hg
      rfl
    | noise byte hn => cases hg
    | excess kind length hk he => cases hg
  have hfirst : (first ++ noise).filterMap frame? = before := by
    rw [List.filterMap_append, hbefore, List.filterMap_eq_nil_iff.2 hnoise, List.append_nil]
  refine ⟨stream (first ++ noise), stream last' ++ rest, ?_, ?_, ?_⟩
  · simp [stream, hbytes]
  · rw [(feed_stream ha' _).1, hfirst]
  · have hsplit : stream (first ++ noise) ++ (stream last' ++ rest) =
        stream ((first ++ noise) ++ last') ++ rest := by simp [stream]
    rw [hsplit, (feed_segmented ha' _ hu).1, List.filterMap_append, hfirst, hafter]

theorem unfinished_nil : Unfinished [] :=
  unfinished_of_append (g := .noise 1 (by decide)) rfl (by simp)

/-- **The assembler parses exactly its grammar.** Whatever an assembler without collected bytes is
handed, in bytes and in chunks, is segments and an unfinished one in exactly one way; the frames are
those among the segments, in order, each other segment counts once, and the unfinished one is
pending. Segments alone leave nothing pending. -/
theorem feed_eq_unique_segmentation (ha : a.pending = 0) (ds : List Delivery) :
    (∃! p : List Segment × List UInt8,
      Unfinished p.2 ∧ stream p.1 ++ p.2 = ds.flatMap Delivery.bytes) ∧
    (∀ segments rest, Unfinished rest → stream segments ++ rest = ds.flatMap Delivery.bytes →
      (a.takeAll ds).2 = segments.filterMap frame? ∧
      (a.takeAll ds).1.resyncs = a.resyncs + segments.countP isNoise ∧
      (a.takeAll ds).1.pending = rest.length) ∧
    ∀ segments, stream segments = ds.flatMap Delivery.bytes →
      (a.takeAll ds).2 = segments.filterMap frame? ∧
      (a.takeAll ds).1.resyncs = a.resyncs + segments.countP isNoise ∧
      (a.takeAll ds).1.pending = 0 := by
  have ha' : a.collected = [] := List.length_eq_zero_iff.1 ha
  have hparse : ∀ segments rest, Unfinished rest →
      stream segments ++ rest = ds.flatMap Delivery.bytes →
      (a.takeAll ds).2 = segments.filterMap frame? ∧
      (a.takeAll ds).1.resyncs = a.resyncs + segments.countP isNoise ∧
      (a.takeAll ds).1.pending = rest.length := by
    intro segments rest hu hs
    obtain ⟨hframes, hpending, hresyncs⟩ := feed_segmented ha' segments hu
    rw [takeAll_eq_feed, ← hs]
    exact ⟨hframes, hresyncs, hpending⟩
  refine ⟨?_, hparse, ?_⟩
  · obtain ⟨segments, rest, hu, hs⟩ := exists_segmentation (ds.flatMap Delivery.bytes)
    refine ⟨(segments, rest), ⟨hu, hs⟩, ?_⟩
    rintro ⟨segments', rest'⟩ ⟨hu', hs'⟩
    obtain ⟨rfl, rfl⟩ := segmentation_unique hu' hu (hs'.trans hs.symm)
    rfl
  · intro segments hs
    exact hparse segments [] unfinished_nil (by simpa using hs)

/-- A byte and a pair of noise, an event in two pieces, and the beginning of a response. -/
theorem feed_eq_unique_segmentation_noisy :
    pending {} = 0 ∧
    Unfinished [0x00, 0x02, 0x06] ∧
    (takeAll {} [.byte 0x55, .chunk [0x80, 0x3D, 0x80], .chunk [0x01, 0x03, 0x04], .byte 0x13,
      .chunk [0x00, 0x02, 0x06]]).2 = [⟨⟨0x03, 0x04, true⟩, [0x13]⟩] ∧
    (takeAll {} [.byte 0x55, .chunk [0x80, 0x3D, 0x80], .chunk [0x01, 0x03, 0x04], .byte 0x13,
      .chunk [0x00, 0x02, 0x06]]).1.resyncs = 2 ∧
    (takeAll {} [.byte 0x55, .chunk [0x80, 0x3D, 0x80], .chunk [0x01, 0x03, 0x04], .byte 0x13,
      .chunk [0x00, 0x02, 0x06]]).1.pending = 3 := by
  have hg : (Segment.frame ⟨⟨0x06, 0x02, false⟩, [0x00, 0x00]⟩ (by decide)).bytes =
      [0x00, 0x02, 0x06] ++ [0x02, 0x00, 0x00] := rfl
  have hu : Unfinished [0x00, 0x02, 0x06] := unfinished_of_append hg (by simp)
  have h := (feed_eq_unique_segmentation (a := {}) rfl [.byte 0x55, .chunk [0x80, 0x3D, 0x80],
    .chunk [0x01, 0x03, 0x04], .byte 0x13, .chunk [0x00, 0x02, 0x06]]).2.1
    [.noise 0x55 (by decide), .excess 0x80 0x3D (by decide) (by decide),
      .frame ⟨⟨0x03, 0x04, true⟩, [0x13]⟩ (by decide)] _ hu rfl
  exact ⟨rfl, hu, h⟩

end Assembler

end BleHost
