import BleHost.Message.Kind
import BleHost.Wire.Cursor
import BleHost.Wire.Writer

/-!
# Messages

A message is a packet from the module whose payload has been decoded. It is read and written field
by field as the layout of its kind says. Bytes behind the last field are ignored, so that a module
that appends fields is still understood; a payload that is too short is an error.
-/

namespace BleHost

/-- One value for each field of a layout. -/
abbrev Record : List Field → Type
  | [] => Unit
  | field :: fields => field.type.Carrier × Record fields

namespace Record

instance decidableEq : (fields : List Field) → DecidableEq (Record fields)
  | [] => inferInstanceAs (DecidableEq Unit)
  | field :: fields =>
    have := decidableEq fields
    inferInstanceAs (DecidableEq (field.type.Carrier × Record fields))

/-- Read the fields of a layout one behind the other. -/
def read : (fields : List Field) → Cursor → Except Error (Record fields) × Cursor
  | [], c => (.ok (), c)
  | field :: fields, c =>
    match c.read field.type with
    | (.error e, c) => (.error e, c)
    | (.ok value, c) =>
      match read fields c with
      | (.error e, c) => (.error e, c)
      | (.ok values, c) => (.ok (value, values), c)

/-- The values of a record with the names of their fields. -/
def values : (fields : List Field) → Record fields → List (String × WireValue)
  | [], () => []
  | field :: fields, (value, rest) => (field.name, ⟨field.type, value⟩) :: values fields rest

end Record

/-- A packet from the module, decoded. -/
structure Message where
  kind : MessageKind
  fields : Record kind.layout

namespace Message

instance : DecidableEq Message
  | ⟨kind, fields⟩, ⟨kind', fields'⟩ =>
    if h : kind = kind' then by
      subst h
      exact match Record.decidableEq kind.layout fields fields' with
        | .isTrue h => .isTrue (h ▸ rfl)
        | .isFalse h => .isFalse fun e => h (by injection e)
    else .isFalse fun e => h (by injection e)

instance : Inhabited Message := ⟨⟨.systemHello, ()⟩⟩

/-- The identity of the kind of a message. -/
def id (m : Message) : Identity := m.kind.id

/-- The name of the kind of a message. -/
def name (m : Message) : String := m.kind.name

/-- The fields of a message with their names, in wire order. -/
def values (m : Message) : List (String × WireValue) := Record.values m.kind.layout m.fields

/-- Decode the payload of a packet of a given kind. -/
def decode (kind : MessageKind) (payload : List UInt8) : Except Error Message :=
  ((Record.read kind.layout (.start payload)).1).map (⟨kind, ·⟩)

/-- The payload of a message. -/
def encode (m : Message) : Except Error (List UInt8) :=
  (Writer.putAll {} (m.values.map (·.2))).map (·.written)

/-- The result code of a message, if it is of a kind that carries one. -/
def result? (m : Message) : Option ResultCode :=
  m.values.findSome? fun
    | ("result", ⟨.result, code⟩) => some code
    | _ => none

end Message

end BleHost
