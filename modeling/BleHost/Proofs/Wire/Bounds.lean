import BleHost.Proofs.Wire.Payload

/-!
# Where reads lead

A read takes up just the bytes of its value, whatever lies before and behind them, or it fails for
want of bytes (`read_cases`). So a cursor goes neither back nor past the end of its payload,
whatever is read and however much of it fails, and at every position it reads what a new cursor
would read from there on (`reads_within_payload`).
-/

namespace BleHost

/-- How many bytes a read asks for to begin with: those of the value or, of an array, its length. -/
def WireType.width : WireType → Nat
  | .u8 | .i8 | .bool | .bytes | .addressType | .scanType | .statusFlags => 1
  | .u16 | .result => 2
  | .u32 => 4
  | .address => 6

theorem FixedWidth.width_of {t : WireType} (ht : t ≠ .bytes) :
    (FixedWidth.of t ht).width = t.width := by
  cases t
  case bytes => exact absurd rfl ht
  all_goals rfl

namespace Cursor

variable {c : Cursor} {t : WireType} {payload taken s : List UInt8}

/-! ### One read -/

/-- So many bytes are all ahead, and no others are looked at, or they are missed. -/
theorem view_cases {α : Type} (n : Nat) (see : { bytes : List UInt8 // bytes.length = n } → α)
    (rest : List UInt8) :
    (∃ (b : { bytes : List UInt8 // bytes.length = n }) (s : List UInt8), rest = b.1 ++ s ∧
      ∀ position s', view n see ⟨position, b.1 ++ s'⟩ = (.ok (see b), ⟨position + n, s'⟩)) ∨
    (rest.length < n ∧ ∀ position,
      view n see ⟨position, rest⟩ = (.error (.truncated n rest.length), ⟨position, rest⟩)) := by
  by_cases hle : n ≤ rest.length
  · exact .inl ⟨⟨rest.take n, by simp [hle]⟩, rest.drop n, (List.take_append_drop n rest).symm,
      fun position s' => view_append see _ rfl⟩
  · exact .inr ⟨Nat.lt_of_not_le hle, fun position => view_short see (Nat.lt_of_not_le hle)⟩

/-- **What a read does.** It takes up the bytes of a value, and needs no others; or there are fewer
than it asks for to begin with, and nothing happens; or it takes up the length of an array that is
not all there. -/
theorem read_cases (t : WireType) (rest : List UInt8) :
    (∃ (v : t.Carrier) (taken s : List UInt8), rest = taken ++ s ∧ t.width ≤ taken.length ∧
      taken.length = (WireValue.bytes ⟨t, v⟩).length ∧
      ∀ position s', read t ⟨position, taken ++ s'⟩ = (.ok v, ⟨position + taken.length, s'⟩)) ∨
    (rest.length < t.width ∧ ∀ position,
      read t ⟨position, rest⟩ = (.error (.truncated t.width rest.length), ⟨position, rest⟩)) ∨
    (t = .bytes ∧ ∃ length body, rest = length :: body ∧ body.length < length.toNat ∧ ∀ position,
      read t ⟨position, rest⟩ =
        (.error (.truncated length.toNat body.length), ⟨position + 1, body⟩)) := by
  by_cases ht : t = .bytes
  · subst ht
    have harray : ∀ c : Cursor, c.read .bytes = c.array := fun c => rfl
    obtain _ | ⟨length, body⟩ := rest
    · refine .inr (.inl ⟨Nat.zero_lt_one, fun position => ?_⟩)
      rw [harray, array_nil rfl]
      rfl
    · obtain ⟨⟨data, hdata⟩, s, rfl, hview⟩ | ⟨hshort, hview⟩ :=
        view_cases length.toNat (·.1) body
      · refine .inl ⟨data, length :: data, s, rfl, Nat.le_add_left _ _, ?_,
          fun position s' => ?_⟩
        · have hbyte := length.toNat_lt
          rw [WireValue.bytes_array (by omega), List.length_cons, List.length_cons]
        · rw [harray, List.cons_append, array_cons rfl, hview, List.length_cons, hdata,
            Nat.add_assoc, Nat.add_comm 1]
      · refine .inr (.inr ⟨rfl, length, body, rfl, hshort, fun position => ?_⟩)
        rw [harray, array_cons rfl, hview]
  · let f := FixedWidth.of t ht
    have hwidth : f.width = t.width := FixedWidth.width_of ht
    obtain ⟨b, s, rfl, hview⟩ | ⟨hshort, hview⟩ := view_cases f.width f.see rest
    · refine .inl ⟨f.see b, b.1, s, rfl, Nat.le_of_eq (b.2.trans hwidth).symm, ?_,
        fun position s' => ?_⟩
      · rw [f.bytes_eq, (f.write _).2, b.2]
      · rw [f.read_eq, hview, b.2]
    · refine .inr (.inl ⟨by omega, fun position => ?_⟩)
      rw [f.read_eq, hview, hwidth]

/-- What is read depends on the bytes ahead only. -/
theorem fst_read_eq (t : WireType) (position position' : Nat) (rest : List UInt8) :
    (read t ⟨position, rest⟩).1 = (read t ⟨position', rest⟩).1 := by
  obtain ⟨v, taken, s, rfl, -, -, hread⟩ | ⟨-, hread⟩ | ⟨-, length, body, -, -, hread⟩ :=
    read_cases t rest
  · rw [hread, hread]
  · rw [hread, hread]
  · rw [hread, hread]

/-- The bytes that a value has been read from, which alone decide on it. -/
theorem taken_of_read {v : t.Carrier} (h : (c.read t).1 = .ok v) :
    ∃ taken s, c.rest = taken ++ s ∧ (c.read t).2 = ⟨c.position + taken.length, s⟩ ∧
      t.width ≤ taken.length ∧ taken.length = (WireValue.bytes ⟨t, v⟩).length ∧
      ((Cursor.start taken).read t).1 = .ok v := by
  obtain ⟨position, rest⟩ := c
  obtain ⟨v', taken, s, rfl, hwidth, hlength, hread⟩ | ⟨-, hread⟩ |
    ⟨-, length, body, -, -, hread⟩ := read_cases t rest
  · rw [hread] at h
    obtain rfl := Except.ok.inj h
    have halone := hread 0 []
    rw [List.append_nil] at halone
    exact ⟨taken, s, rfl, congrArg Prod.snd (hread position s), hwidth, hlength,
      congrArg Prod.fst halone⟩
  · rw [hread] at h
    cases h
  · rw [hread] at h
    cases h

/-- The bytes that a read has missed, and where it has left the cursor. -/
theorem missed_of_read {e : Error} (h : (c.read t).1 = .error e) :
    (c.remaining < t.width ∧ e = .truncated t.width c.remaining ∧ (c.read t).2 = c) ∨
    (t = .bytes ∧ ∃ length body, c.rest = length :: body ∧ body.length < length.toNat ∧
      e = .truncated length.toNat body.length ∧ (c.read t).2 = ⟨c.position + 1, body⟩) := by
  obtain ⟨position, rest⟩ := c
  obtain ⟨v, taken, s, rfl, -, -, hread⟩ | ⟨hshort, hread⟩ |
    ⟨ht, length, body, hrest, hshort, hread⟩ := read_cases t rest
  · rw [hread] at h
    cases h
  · rw [hread] at h ⊢
    obtain rfl := Except.error.inj h
    exact .inl ⟨hshort, rfl, rfl⟩
  · rw [hread] at h ⊢
    obtain rfl := Except.error.inj h
    exact .inr ⟨ht, length, body, hrest, hshort, rfl, rfl⟩

/-- An array that has been read stands behind its length. -/
theorem array_of_read {v : List UInt8} (h : (c.read .bytes).1 = .ok v) :
    ∃ length s, c.rest = length :: (v ++ s) ∧ v.length = length.toNat := by
  have hread : c.read .bytes = (.ok v, (c.read .bytes).2) := by rw [← h]
  obtain ⟨hfits, -, hrest⟩ := of_read (t := .bytes) nofun hread
  have hle : v.length ≤ 255 := hfits
  rw [WireValue.bytes_array hle] at hrest
  exact ⟨_, _, hrest, (UInt8.toNat_ofNat_of_lt' (Nat.lt_succ_of_le hle)).symm⟩

/-- A read fails only for want of bytes, and never succeeds without them. -/
theorem read_fails_iff : (∃ e, (c.read t).1 = .error e) ↔
    c.remaining < t.width ∨ (t = .bytes ∧ ∃ length body, c.rest = length :: body ∧
      body.length < length.toNat) := by
  constructor
  · rintro ⟨e, he⟩
    rcases missed_of_read he with ⟨hshort, -⟩ | ⟨ht, length, body, hrest, hshort, -⟩
    · exact .inl hshort
    · exact .inr ⟨ht, length, body, hrest, hshort⟩
  · intro hmissed
    cases hread : (c.read t).1 with
    | error e => exact ⟨e, rfl⟩
    | ok v =>
      exfalso
      rcases hmissed with hshort | ⟨rfl, length, body, hrest, hshort⟩
      · obtain ⟨taken, s, htaken, -, hwidth, -⟩ := taken_of_read hread
        rw [remaining, htaken, List.length_append] at hshort
        omega
      · obtain ⟨length', s, hrest', hlength⟩ := array_of_read hread
        obtain ⟨rfl, rfl⟩ := List.cons.inj (hrest.symm.trans hrest')
        rw [List.length_append] at hshort
        omega

/-! ### Positions in a payload -/

/-- Whether a cursor walks over this payload: what lies ahead of it is what follows its position. -/
structure Over (payload : List UInt8) (c : Cursor) : Prop where
  position_le : c.position ≤ payload.length
  rest_eq : c.rest = payload.drop c.position

namespace Over

theorem start (payload : List UInt8) : Over payload (.start payload) := ⟨Nat.zero_le _, rfl⟩

theorem remaining_eq (h : Over payload c) : c.remaining = payload.length - c.position := by
  rw [remaining, h.rest_eq, List.length_drop]

theorem skip (h : Over payload c) (hrest : c.rest = taken ++ s) :
    Over payload ⟨c.position + taken.length, s⟩ := by
  have hdrop : payload.drop c.position = taken ++ s := h.rest_eq.symm.trans hrest
  constructor
  · have hlength := congrArg List.length hdrop
    simp only [List.length_drop, List.length_append] at hlength
    have := h.position_le
    show c.position + taken.length ≤ payload.length
    omega
  · show s = payload.drop (c.position + taken.length)
    rw [← List.drop_drop, hdrop, List.drop_left]

/-- No read leaves the payload or goes back. -/
theorem read (h : Over payload c) (t : WireType) :
    Over payload (c.read t).2 ∧ c.position ≤ (c.read t).2.position := by
  obtain ⟨position, rest⟩ := c
  obtain ⟨v, taken, s, rfl, -, -, hread⟩ | ⟨-, hread⟩ | ⟨-, length, body, rfl, -, hread⟩ :=
    read_cases t rest
  · rw [hread]
    exact ⟨h.skip rfl, Nat.le_add_right _ _⟩
  · rw [hread]
    exact ⟨h, Nat.le_refl _⟩
  · have hrest : length :: body = [length] ++ body := rfl
    rw [hread]
    exact ⟨h.skip hrest, Nat.le_succ _⟩

theorem reads (h : Over payload c) (types : List WireType) : Over payload (c.reads types).2 := by
  induction types generalizing c with
  | nil => exact h
  | cons t types ih => exact ih (h.read t).1

end Over

/-! ### Any reads -/

/-- **A cursor stays within its payload.** After any reads of a payload, whether they failed or not,
as many bytes remain as lie behind the cursor's position, and no read moves it back or past the end.
A read gives what a new cursor gives at the beginning of what remains. If it succeeds, it goes
forward by as many bytes as its value is written as, and these bytes alone decide on the value; an
array is what stands behind its length. If it fails, then for want of bytes: either there are fewer
than it asks for to begin with, and the cursor stays where it is, or it has found the length of an
array that is not all there, and goes forward by this one byte. The error says how many bytes it
asked for and how many there were. Whenever bytes are missing in one of these ways, it fails. -/
theorem reads_within_payload (payload : List UInt8) (types : List WireType) (t : WireType) :
    let c := ((Cursor.start payload).reads types).2
    let c' := (c.read t).2
    c.remaining = payload.length - c.position ∧
    c.position ≤ c'.position ∧ c'.position ≤ payload.length ∧
    (c.read t).1 = ((Cursor.start (payload.drop c.position)).read t).1 ∧
    (∀ v, (c.read t).1 = .ok v →
      c'.position = c.position + (WireValue.bytes ⟨t, v⟩).length ∧
      ((Cursor.start ((payload.drop c.position).take (c'.position - c.position))).read t).1 =
        .ok v) ∧
    (∀ v, (c.read .bytes).1 = .ok v →
      ∃ length s, payload.drop c.position = length :: (v ++ s) ∧ v.length = length.toNat) ∧
    (∀ e, (c.read t).1 = .error e →
      (c.remaining < t.width ∧ e = .truncated t.width c.remaining ∧ c' = c) ∨
      (t = .bytes ∧ ∃ length body, payload.drop c.position = length :: body ∧
        body.length < length.toNat ∧ e = .truncated length.toNat body.length ∧
        c' = ⟨c.position + 1, body⟩)) ∧
    ((∃ e, (c.read t).1 = .error e) ↔
      c.remaining < t.width ∨
      (t = .bytes ∧ ∃ length body, payload.drop c.position = length :: body ∧
        body.length < length.toNat)) := by
  intro c c'
  have h : Over payload c := (Over.start payload).reads types
  obtain ⟨h', hle⟩ := h.read t
  have hrest : payload.drop c.position = c.rest := h.rest_eq.symm
  have hfresh : (c.read t).1 = ((Cursor.start c.rest).read t).1 := fst_read_eq t _ 0 c.rest
  refine ⟨h.remaining_eq, hle, h'.position_le, hrest ▸ hfresh, fun v hv => ?_, fun v hv => ?_,
    fun e he => ?_, ?_⟩
  · obtain ⟨taken, s, htaken, hc', -, hlength, halone⟩ := taken_of_read hv
    have hposition : c'.position = c.position + taken.length := congrArg (·.position) hc'
    rw [hposition, hrest, htaken, Nat.add_sub_cancel_left, List.take_left]
    exact ⟨congrArg (c.position + ·) hlength, halone⟩
  · rw [hrest]
    exact array_of_read hv
  · rw [hrest]
    exact missed_of_read he
  · rw [hrest]
    exact read_fails_iff

/-- The length of an array that is not all there is gone, and the bytes behind it are read next. -/
example : (Cursor.start [4, 0xAA, 0xBB]).reads [.u32, .bytes, .u16] =
    ([.error (.truncated 4 3), .error (.truncated 4 2), .ok ⟨.u16, 0xBBAA⟩], ⟨3, []⟩) :=
  rfl

end Cursor

end BleHost
