import BleHost.Proofs.Wire.Fields

/-!
# Reading and writing whole payloads

Values that are put behind one another are read back in the same order, however many of them were
refused in between: a refused value leaves no trace in what has been written.
-/

namespace BleHost

/-! ### Writing -/

namespace Writer

/-- Put several values, going on after those that are refused: what became of each of them, and what
has been written in the end. -/
def puts (w : Writer) : List WireValue → List (Except Error Unit) × Writer
  | [] => ([], w)
  | value :: values =>
    let (verdict, w) := w.put value
    let (verdicts, w) := w.puts values
    (verdict :: verdicts, w)

/-- The values that have not been refused. -/
def accepted : List WireValue → List (Except Error Unit) → List WireValue
  | value :: values, .ok () :: verdicts => value :: accepted values verdicts
  | _ :: values, .error _ :: verdicts => accepted values verdicts
  | _, _ => []

variable {w : Writer} {v : WireValue} {values : List WireValue}

theorem put_of_fits (h : v.Fits) : w.put v = (.ok (), ⟨w.written ++ v.bytes⟩) := by
  rw [put, WireValue.encode_eq_ok h]

/-- A value that is refused leaves the writer as it was. -/
theorem put_of_not_fits (h : ¬ v.Fits) :
    ∃ reason, w.put v = (.error (.invalidParameter reason), w) := by
  obtain ⟨reason, hreason⟩ := WireValue.encode_eq_error h
  exact ⟨reason, by rw [put, hreason]⟩

/-- Only the values that fit are accepted. -/
theorem accepted_puts (w : Writer) (values : List WireValue) :
    accepted values (w.puts values).1 = values.filter (·.Fits) := by
  induction values generalizing w with
  | nil => rfl
  | cons v values ih =>
    by_cases h : v.Fits
    · simp only [puts, put_of_fits h, accepted, ih, List.filter_cons, h, decide_true, if_true]
    · obtain ⟨reason, hput⟩ := put_of_not_fits (w := w) h
      simp only [puts, hput, accepted, ih, List.filter_cons, h, decide_false, Bool.false_eq_true,
        if_false]

/-- What has been written are the bytes of the values that fit. -/
theorem written_puts (w : Writer) (values : List WireValue) :
    (w.puts values).2.written =
      w.written ++ (values.filter (·.Fits)).flatMap WireValue.bytes := by
  induction values generalizing w with
  | nil => simp [puts]
  | cons v values ih =>
    by_cases h : v.Fits
    · simp only [puts, put_of_fits h, ih, List.filter_cons, h, decide_true, if_true,
        List.flatMap_cons, List.append_assoc]
    · obtain ⟨reason, hput⟩ := put_of_not_fits (w := w) h
      simp only [puts, hput, ih, List.filter_cons, h, decide_false, Bool.false_eq_true, if_false]

theorem puts_append (w : Writer) (before after : List WireValue) :
    w.puts (before ++ after) =
      ((w.puts before).1 ++ ((w.puts before).2.puts after).1,
        ((w.puts before).2.puts after).2) := by
  induction before generalizing w with
  | nil => rfl
  | cons v before ih => simp only [List.cons_append, puts, ih]

/-- There is one verdict for each value. -/
theorem length_puts (w : Writer) (values : List WireValue) :
    (w.puts values).1.length = values.length := by
  induction values generalizing w with
  | nil => rfl
  | cons v values ih => simp only [puts, List.length_cons, ih]

/-- What becomes of a value is for the writer to say that the values before it have left. -/
theorem getElem?_puts (w : Writer) (before : List WireValue) (v : WireValue)
    (after : List WireValue) :
    (w.puts (before ++ v :: after)).1[before.length]? = some ((w.puts before).2.put v).1 := by
  rw [puts_append, ← length_puts w before, List.getElem?_append_right (Nat.le_refl _), Nat.sub_self]
  rfl

/-- Values that all fit are written one behind the other. -/
theorem putAll_of_fits (h : ∀ v ∈ values, v.Fits) :
    w.putAll values = .ok ⟨w.written ++ values.flatMap WireValue.bytes⟩ := by
  induction values generalizing w with
  | nil => simp [putAll]
  | cons v values ih =>
    obtain ⟨hv, hvalues⟩ := List.forall_mem_cons.1 h
    simp only [putAll, put_of_fits hv, ih hvalues, List.flatMap_cons, List.append_assoc]

/-- One value that does not fit is enough for nothing to be written. -/
theorem putAll_of_not_fits (h : ∃ v ∈ values, ¬ v.Fits) :
    ∃ reason, w.putAll values = .error (.invalidParameter reason) := by
  induction values generalizing w with
  | nil => simp at h
  | cons v values ih =>
    by_cases hv : v.Fits
    · have hvalues : ∃ v ∈ values, ¬ v.Fits := by simpa [hv] using h
      obtain ⟨reason, hreason⟩ := ih (w := ⟨w.written ++ v.bytes⟩) hvalues
      exact ⟨reason, by rw [putAll, put_of_fits hv]; exact hreason⟩
    · obtain ⟨reason, hput⟩ := put_of_not_fits (w := w) hv
      exact ⟨reason, by rw [putAll, hput]⟩

end Writer

/-! ### Reading -/

namespace Cursor

/-- Read several values, going on after those that could not be read: what came of each of them, and
where the cursor is in the end. -/
def reads (c : Cursor) : List WireType → List (Except Error WireValue) × Cursor
  | [] => ([], c)
  | t :: types =>
    let (value, c) := c.read t
    let (values, c) := c.reads types
    (value.map (⟨t, ·⟩) :: values, c)

/-- Values that lie one behind the other are read one after the other. -/
theorem reads_bytes {values : List WireValue} {c : Cursor} {s : List UInt8}
    (hfits : ∀ v ∈ values, v.Fits) (hcanonical : ∀ v ∈ values, v.IsCanonical)
    (h : c.rest = values.flatMap WireValue.bytes ++ s) :
    c.reads (values.map (·.1)) =
      (values.map .ok, ⟨c.position + (values.flatMap WireValue.bytes).length, s⟩) := by
  induction values generalizing c with
  | nil => obtain ⟨position, rest⟩ := c; simpa [reads] using h
  | cons v values ih =>
    obtain ⟨hv, hvalues⟩ := List.forall_mem_cons.1 hfits
    obtain ⟨hv', hvalues'⟩ := List.forall_mem_cons.1 hcanonical
    rw [List.flatMap_cons, List.append_assoc] at h
    have hrest := ih (c := ⟨c.position + v.bytes.length, values.flatMap WireValue.bytes ++ s⟩)
      hvalues hvalues' rfl
    simp only [List.map_cons, reads, read_bytes hv hv' h, hrest, Except.map, List.flatMap_cons,
      List.length_append, Nat.add_assoc]

end Cursor

/-! ### Both -/

/-- **A payload is read back as it was written.** Of values put one behind the other, arrays of more
than 255 bytes are refused and no others; a refused value leaves what has been written as it was;
and the types of the accepted values, read from the payload, give these values again, up to its end
and to whatever follows it. Values of plain types are all canonical
(`WireValue.isCanonical_of_isPlain`). -/
theorem Cursor.reads_puts {values : List WireValue} (hcanonical : ∀ v ∈ values, v.IsCanonical) :
    (Writer.puts {} values).1.length = values.length ∧
    (∀ before v after, values = before ++ v :: after →
      ((∃ e, (Writer.puts {} values).1[before.length]? = some (.error e)) ↔
        ∃ data, v = ⟨.bytes, data⟩ ∧ 255 < data.length) ∧
      ((∃ e, (Writer.puts {} values).1[before.length]? = some (.error e)) →
        (Writer.puts {} (before ++ [v])).2 = (Writer.puts {} before).2)) ∧
    ∀ s, (Cursor.start ((Writer.puts {} values).2.written ++ s)).reads
        ((Writer.accepted values (Writer.puts {} values).1).map (·.1)) =
      ((Writer.accepted values (Writer.puts {} values).1).map .ok,
        ⟨(Writer.puts {} values).2.length, s⟩) := by
  refine ⟨Writer.length_puts {} values, ?_, fun s => ?_⟩
  · rintro before v after rfl
    rw [Writer.getElem?_puts, Writer.puts_append]
    by_cases hv : v.Fits
    · rw [Writer.put_of_fits hv, ← WireValue.not_fits_iff]
      simp [hv]
    · obtain ⟨reason, hput⟩ := Writer.put_of_not_fits (w := (Writer.puts {} before).2) hv
      rw [← WireValue.not_fits_iff]
      simp [hput, hv, Writer.puts]
  · rw [Writer.accepted_puts]
    have hwritten := Writer.written_puts {} values
    rw [Writer.length, hwritten]
    have hfits : ∀ v ∈ values.filter (·.Fits), v.Fits := by simp
    have hcanonical' : ∀ v ∈ values.filter (·.Fits), v.IsCanonical :=
      fun v hv => hcanonical v (List.mem_filter.1 hv).1
    have hread := Cursor.reads_bytes (s := s) (c := .start _) hfits hcanonical' rfl
    rwa [Cursor.start, Nat.zero_add] at hread

/-- An array that is too long between two other values, and three bytes behind them. -/
theorem Cursor.reads_puts_refused :
    (∀ v ∈ [⟨.u16, 0x1234⟩, ⟨.bytes, List.replicate 256 0⟩, ⟨.bytes, [7]⟩],
      WireValue.IsCanonical v) ∧
    (Cursor.start [0x34, 0x12, 1, 7, 1, 2, 3]).reads [.u16, .bytes] =
      ([.ok ⟨.u16, 0x1234⟩, .ok ⟨.bytes, [7]⟩], ⟨4, [1, 2, 3]⟩) := by
  have hcanonical : ∀ v ∈ [⟨.u16, 0x1234⟩, ⟨.bytes, List.replicate 256 0⟩, ⟨.bytes, [7]⟩],
      WireValue.IsCanonical v :=
    List.forall_mem_cons.2 ⟨trivial, List.forall_mem_cons.2
      ⟨trivial, List.forall_mem_singleton.2 trivial⟩⟩
  have hkept : [⟨.u16, 0x1234⟩, ⟨.bytes, List.replicate 256 0⟩, ⟨.bytes, [7]⟩].filter
      (fun v => decide (WireValue.Fits v)) = [⟨.u16, 0x1234⟩, ⟨.bytes, [7]⟩] := by
    have hlong : ¬ WireValue.Fits ⟨.bytes, List.replicate 256 0⟩ := by
      rw [WireValue.Fits, List.length_replicate]
      decide
    rw [List.filter_cons_of_pos (by decide), List.filter_cons_of_neg (by rwa [decide_eq_true_iff]),
      List.filter_cons_of_pos (by decide), List.filter_nil]
  have hread := (Cursor.reads_puts hcanonical).2.2 [1, 2, 3]
  rw [Writer.length, Writer.written_puts, Writer.accepted_puts, hkept] at hread
  exact ⟨hcanonical, hread⟩

end BleHost
