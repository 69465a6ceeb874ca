import BleHost.Command.Instruction
import BleHost.Proofs.Frame.Assembly
import BleHost.Proofs.Wire.Payload

/-!
# Commands and their frames

However a command is made, it is refused just if a byte array is too long for a frame, and otherwise
it is one frame: its payload holds the arguments and nothing else, and the bytes of the frame are
taken for that frame wherever one may begin.
-/

namespace BleHost

/-! ### Commands as frames -/

namespace Command

theorem ofPayload_of_le {classId commandId : UInt8} {payload : List UInt8}
    (h : payload.length ≤ Frame.maxPayload) :
    ofPayload classId commandId payload = .ok ⟨classId, commandId, payload⟩ := by
  rw [ofPayload, if_pos h]

theorem ofPayload_of_lt {classId commandId : UInt8} {payload : List UInt8}
    (h : Frame.maxPayload < payload.length) :
    ∃ reason, ofPayload classId commandId payload = .error (.invalidParameter reason) := by
  rw [ofPayload, if_neg (Nat.not_le.2 h)]
  exact ⟨_, rfl⟩

/-- The bytes of a command are its frame, and whatever follows them is fed to an assembler that has
collected nothing. -/
theorem feed_bytes {c : Command} (hc : c.payload.length ≤ Frame.maxPayload) {a : Assembler}
    (ha : a.pending = 0) (rest : List UInt8) :
    a.feed (c.bytes ++ rest) = ((a.reset.feed rest).1, c.frame :: (a.reset.feed rest).2) := by
  have hframe : a.feed c.bytes = (a.reset, [c.frame]) :=
    Assembler.feed_frame_bytes (List.length_eq_zero_iff.1 ha) hc
  rw [Assembler.feed_append, hframe]
  rfl

end Command

/-! ### What instructions are to look like -/

namespace Code

variable {κ ρ : Type} [Vocabulary κ ρ] [DecidableEq ρ]

/-- Whether a number is that of a code: it is read as the code, or the code has no name and is the
number itself. -/
def HasNumber (c : Code κ ρ) (n : ρ) : Prop := ofRaw n = c ∨ c = unknown n

theorem hasNumber_raw (hknown : ∀ k : κ, IsCanonical (known k)) (c : Code κ ρ) :
    c.HasNumber c.raw := by
  cases c with
  | known k => exact .inl (hknown k)
  | unknown n => exact .inr rfl

end Code

namespace Instruction

/-- Whether a payload is read as these values, one behind the other, and nothing is left of it. -/
def Holds (payload : List UInt8) (values : List WireValue) : Prop :=
  (Cursor.start payload).reads (values.map (·.1)) = (values.map .ok, ⟨payload.length, []⟩)

/-- The class of an instruction and its number within the class. -/
def number : Instruction → UInt8 × UInt8
  | systemReset _ => (0, 0)
  | systemHello => (0, 1)
  | systemAddressGet => (0, 2)
  | systemGetCounters => (0, 5)
  | systemGetConnections => (0, 6)
  | systemGetInfo => (0, 8)
  | connectionDisconnect _ => (3, 0)
  | connectionGetRssi _ => (3, 1)
  | connectionGetStatus _ => (3, 7)
  | readByGroupType .. => (4, 1)
  | readByHandle .. => (4, 4)
  | attributeWrite .. => (4, 5)
  | setMode .. => (6, 1)
  | discover _ => (6, 2)
  | connectDirect .. => (6, 3)
  | endProcedure => (6, 4)
  | setScanParameters .. => (6, 7)

/-- Whether the parameters of an instruction are read from a payload, in their order, and nothing is
left of it. -/
def IsHeldBy (payload : List UInt8) : Instruction → Prop
  | systemReset bootInDfu => Holds payload [⟨.bool, bootInDfu⟩]
  | systemHello | systemAddressGet | systemGetCounters | systemGetConnections | systemGetInfo
  | endProcedure => payload = []
  | connectionDisconnect connection | connectionGetRssi connection
  | connectionGetStatus connection => Holds payload [⟨.u8, connection⟩]
  | readByGroupType connection first last uuid =>
    Holds payload [⟨.u8, connection⟩, ⟨.u16, first⟩, ⟨.u16, last⟩, ⟨.bytes, uuid⟩]
  | readByHandle connection handle => Holds payload [⟨.u8, connection⟩, ⟨.u16, handle⟩]
  | attributeWrite connection handle data =>
    Holds payload [⟨.u8, connection⟩, ⟨.u16, handle⟩, ⟨.bytes, data⟩]
  | setMode discoverable connectable =>
    ∃ m n, discoverable.HasNumber m ∧ connectable.HasNumber n ∧
      Holds payload [⟨.u8, m⟩, ⟨.u8, n⟩]
  | discover filter => ∃ n, filter.HasNumber n ∧ Holds payload [⟨.u8, n⟩]
  | connectDirect address addressType timing =>
    ∃ n, addressType.HasNumber n ∧
      Holds payload [⟨.address, address⟩, ⟨.u8, n⟩, ⟨.u16, timing.intervalMin⟩,
        ⟨.u16, timing.intervalMax⟩, ⟨.u16, timing.timeout⟩, ⟨.u16, timing.latency⟩]
  | setScanParameters interval window active =>
    Holds payload [⟨.u16, interval⟩, ⟨.u16, window⟩, ⟨.bool, active⟩]

/-- Whether an instruction has a byte array that no frame can hold next to the other arguments. -/
def Oversized : Instruction → Prop
  | readByGroupType _ _ _ uuid => 54 < uuid.length
  | attributeWrite _ _ data => 56 < data.length
  | _ => False

/-! ### Instructions -/

theorem number_eq (i : Instruction) : i.number = (i.classId, i.commandId) := by cases i <;> rfl

/-- All arguments are of plain types, codes among them being given by their numbers. -/
theorem isPlain_arguments (i : Instruction) : ∀ v ∈ i.arguments, v.1.isPlain = true := by
  cases i <;> simp [arguments, WireType.isPlain]

/-- Whether values can be written into the payload of one frame. -/
def Encodable (values : List WireValue) : Prop :=
  (∀ v ∈ values, v.Fits) ∧ (values.flatMap WireValue.bytes).length ≤ Frame.maxPayload

/-- A byte array behind other values takes up its length byte and itself. -/
theorem encodable_array {front : List WireValue} (hfront : ∀ v ∈ front, v.Fits)
    (data : List UInt8) : Encodable (front ++ [⟨.bytes, data⟩]) ↔
      (front.flatMap WireValue.bytes).length + (data.length + 1) ≤ Frame.maxPayload := by
  have hmax : Frame.maxPayload = 60 := rfl
  rw [Encodable, List.flatMap_append, List.length_append, List.flatMap_singleton,
    List.forall_mem_append, List.forall_mem_singleton]
  by_cases hdata : data.length ≤ 255
  · rw [WireValue.bytes_array hdata, List.length_cons]
    exact ⟨And.right, fun h => ⟨⟨hfront, hdata⟩, h⟩⟩
  · exact ⟨fun h => absurd h.1.2 hdata, fun h => by omega⟩

/-- Next to a byte array that is not oversized there is room for everything else. -/
theorem encodable_arguments (i : Instruction) : Encodable i.arguments ↔ ¬ i.Oversized := by
  have hmax : Frame.maxPayload = 60 := rfl
  cases i
  case readByGroupType connection first last uuid =>
    have hfront : ∀ v ∈ [⟨.u8, connection⟩, ⟨.u16, first⟩, ⟨.u16, last⟩], WireValue.Fits v := by
      simp [WireValue.Fits]
    refine (encodable_array hfront uuid).trans ?_
    show 5 + (uuid.length + 1) ≤ Frame.maxPayload ↔ ¬ 54 < uuid.length
    omega
  case attributeWrite connection handle data =>
    have hfront : ∀ v ∈ [⟨.u8, connection⟩, ⟨.u16, handle⟩], WireValue.Fits v := by
      simp [WireValue.Fits]
    refine (encodable_array hfront data).trans ?_
    show 3 + (data.length + 1) ≤ Frame.maxPayload ↔ ¬ 56 < data.length
    omega
  -- the arguments of all others are of fixed width
  all_goals
    refine iff_of_true ⟨by simp [arguments, WireValue.Fits], ?_⟩ id
    simp [arguments, WireValue.bytes, WireType.encode, Except.toOption, Wire.length_littleEndian,
      Address.length_wire, hmax]

theorem not_oversized_of_fixed {i : Instruction} (h : i.takesBytes = false) : ¬ i.Oversized := by
  cases i <;> first | exact id | cases h

theorem payload_of_encodable {i : Instruction} (h : Encodable i.arguments) :
    i.payload = .ok (i.arguments.flatMap WireValue.bytes) := by
  rw [payload, Writer.putAll_of_fits h.1]
  rfl

theorem command_of_encodable {i : Instruction} (h : Encodable i.arguments) :
    i.command = .ok ⟨i.classId, i.commandId, i.arguments.flatMap WireValue.bytes⟩ := by
  rw [command, fixed, payload_of_encodable h]
  split
  · exact Command.ofPayload_of_le h.2
  · rfl

/-- The arguments are written in the order of the parameters, each as its type. -/
theorem isHeldBy_of_encodable {i : Instruction} (h : Encodable i.arguments) :
    i.IsHeldBy (i.arguments.flatMap WireValue.bytes) := by
  have hread : Holds (i.arguments.flatMap WireValue.bytes) i.arguments := by
    have hreads := Cursor.reads_bytes (c := .start (i.arguments.flatMap WireValue.bytes)) (s := [])
      h.1 (fun v hv => WireValue.isCanonical_of_isPlain (i.isPlain_arguments v hv))
      (List.append_nil _).symm
    rwa [Cursor.start, Nat.zero_add] at hreads
  cases i
  case setMode discoverable connectable =>
    exact ⟨_, _, Code.hasNumber_raw (fun k => by cases k <;> rfl) discoverable,
      Code.hasNumber_raw (fun k => by cases k <;> rfl) connectable, hread⟩
  case discover filter =>
    exact ⟨_, Code.hasNumber_raw (fun k => by cases k <;> rfl) filter, hread⟩
  case connectDirect address addressType timing =>
    exact ⟨_, Code.hasNumber_raw (fun k => by cases k <;> rfl) addressType, hread⟩
  -- the arguments of all others are their parameters
  all_goals first | exact hread | rfl

theorem command_of_oversized {i : Instruction} (h : i.Oversized) :
    ∃ reason, i.command = .error (.invalidParameter reason) := by
  have htakes : i.takesBytes = true := by
    cases hfixed : i.takesBytes with
    | true => rfl
    | false => exact absurd h (not_oversized_of_fixed hfixed)
  have hencodable : ¬ Encodable i.arguments := fun hi => i.encodable_arguments.1 hi h
  rw [command, if_pos htakes, payload]
  by_cases hfits : ∀ v ∈ i.arguments, v.Fits
  · rw [Writer.putAll_of_fits hfits]
    exact Command.ofPayload_of_lt (Nat.not_le.1 fun hle => hencodable ⟨hfits, hle⟩)
  · obtain ⟨reason, hput⟩ := Writer.putAll_of_not_fits (w := {}) (by simpa using hfits)
    exact ⟨reason, by rw [hput]; rfl⟩

end Instruction

/-! ### Every way to a command -/

/-- The ways to a command: by an instruction, by a payload that is already encoded, or without a
payload. -/
inductive Construction
  | instruction (i : Instruction)
  | raw (classId commandId : UInt8) (payload : List UInt8)
  | bare (classId commandId : UInt8)

namespace Construction

/-- The command that is constructed, if it is not refused. -/
def command : Construction → Except Error Command
  | instruction i => i.command
  | raw classId commandId payload => Command.ofPayload classId commandId payload
  | bare classId commandId => .ok (Command.bare classId commandId)

/-- The class and the number that are asked for, as the identity of the response. -/
def id : Construction → Identity
  | instruction i => .response i.number.1 i.number.2
  | raw classId commandId _ | bare classId commandId => .response classId commandId

/-- Whether more is asked for than a frame can hold. -/
def Oversized : Construction → Prop
  | instruction i => i.Oversized
  | raw _ _ payload => 60 < payload.length
  | bare _ _ => False

/-- Whether a payload holds what is asked for, in this order, and nothing else. -/
def CarriedBy (payload : List UInt8) : Construction → Prop
  | instruction i => i.IsHeldBy payload
  | raw _ _ given => payload = given
  | bare _ _ => payload = []

/-- A command that is oversized is refused. -/
theorem command_of_oversized {x : Construction} (h : x.Oversized) :
    ∃ reason, x.command = .error (.invalidParameter reason) := by
  cases x with
  | instruction i => exact Instruction.command_of_oversized h
  | raw classId commandId payload => exact Command.ofPayload_of_lt h
  | bare classId commandId => exact h.elim

/-- A command that is not oversized carries what is asked for. -/
theorem command_of_not_oversized {x : Construction} (h : ¬ x.Oversized) :
    ∃ c, x.command = .ok c ∧ c.responseId = x.id ∧ c.payload.length ≤ Frame.maxPayload ∧
      x.CarriedBy c.payload := by
  cases x with
  | instruction i =>
    have hencodable := i.encodable_arguments.2 h
    refine ⟨_, Instruction.command_of_encodable hencodable, ?_, hencodable.2,
      Instruction.isHeldBy_of_encodable hencodable⟩
    rw [id, i.number_eq]
    rfl
  | raw classId commandId payload =>
    have hle : payload.length ≤ Frame.maxPayload := Nat.le_of_not_lt h
    exact ⟨_, Command.ofPayload_of_le hle, rfl, hle, rfl⟩
  | bare classId commandId => exact ⟨_, rfl, rfl, Nat.zero_le _, rfl⟩

/-- **Every command is one faithful frame.** A command is refused, as an invalid parameter, just if
a group type has more than 54 bytes, an attribute more than 56, or an encoded payload more than 60.
Any other command has the class and the number that are asked for, and a payload of at most 60 bytes
from which the parameters are read in order and nothing is left, codes being given by their numbers.
An assembler that has collected nothing takes its bytes for just the frame of its response, and goes
on with whatever follows as one that has collected nothing. -/
theorem faithful (x : Construction) :
    ((∃ e, x.command = .error e) ↔ x.Oversized) ∧
    (∀ e, x.command = .error e → ∃ reason, e = .invalidParameter reason) ∧
    ∀ c, x.command = .ok c →
      c.responseId = x.id ∧ c.payload.length ≤ 60 ∧ x.CarriedBy c.payload ∧
      c.responseId = ⟨c.classId, c.commandId, false⟩ ∧
      ∀ a : Assembler, a.pending = 0 → ∀ rest, a.feed (c.bytes ++ rest) =
        ((a.reset.feed rest).1, ⟨c.responseId, c.payload⟩ :: (a.reset.feed rest).2) := by
  by_cases hover : x.Oversized
  · obtain ⟨reason, herror⟩ := command_of_oversized hover
    rw [herror]
    refine ⟨iff_of_true ⟨_, rfl⟩ hover, fun e he => ⟨reason, (Except.error.inj he).symm⟩, ?_⟩
    intro c hc
    cases hc
  · obtain ⟨c, hok, hid, hle, hcarried⟩ := command_of_not_oversized hover
    rw [hok]
    refine ⟨iff_of_false (by rintro ⟨e, he⟩; cases he) hover, ?_, ?_⟩
    · intro e he
      cases he
    · intro _ hc
      obtain rfl := Except.ok.inj hc
      exact ⟨hid, hle, hcarried, rfl, fun a ha rest => Command.feed_bytes hle ha rest⟩

/-- Fifty-six bytes are written to an attribute, and the frame is found before two others. -/
theorem faithful_attributeWrite :
    ∃ c, command (.instruction (.attributeWrite 1 0x1234 (List.replicate 56 7))) = .ok c ∧
      (Cursor.start c.payload).reads [.u8, .u16, .bytes] =
        ([.ok ⟨.u8, 1⟩, .ok ⟨.u16, 0x1234⟩, .ok ⟨.bytes, List.replicate 56 7⟩],
          ⟨c.payload.length, []⟩) ∧
      (Assembler.feed {} (c.bytes ++ [0x80, 0, 6, 0, 0, 1, 3, 1, 5])).2 =
        [⟨.response 4 5, c.payload⟩, ⟨.event 6 0, []⟩, ⟨.response 3 1, [5]⟩] := by
  obtain ⟨herror, -, hok⟩ :=
    faithful (.instruction (.attributeWrite 1 0x1234 (List.replicate 56 7)))
  cases hcommand : command (.instruction (.attributeWrite 1 0x1234 (List.replicate 56 7))) with
  | error e =>
    have hlong : 56 < (List.replicate 56 (7 : UInt8)).length := herror.1 ⟨e, hcommand⟩
    rw [List.length_replicate] at hlong
    omega
  | ok c =>
    obtain ⟨hid, -, hread, -, hfeed⟩ := hok c hcommand
    refine ⟨c, rfl, hread, ?_⟩
    rw [hfeed {} rfl, hid]
    rfl

end Construction

end BleHost
