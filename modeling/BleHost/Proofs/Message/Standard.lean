import BleHost.Catalogue
import BleHost.Proofs.Message.Layout
import Mathlib.Data.List.Nodup

/-!
# The standard catalogue

No two kinds of messages share an identity, so that the catalogue made by registering them one after
another holds them all, each under its own identity. What it decodes has the identity of the frame
that it was decoded from, and it fails only for a frame that it does not know or that is too short.
-/

namespace BleHost

namespace MessageKind

theorem mem_all (kind : MessageKind) : kind ∈ all := by
  cases kind <;> decide

theorem nodup_ids : (all.map id).Nodup := by
  decide

/-- A kind is known from its identity. -/
theorem id_injective {kind kind' : MessageKind} (h : kind.id = kind'.id) : kind = kind' :=
  List.inj_on_of_nodup_map nodup_ids kind.mem_all kind'.mem_all h

end MessageKind

namespace Catalogue

variable {c : Catalogue} {id : Identity} {decoder : Decoder} {f : Frame}

theorem contains_eq_any : c.contains id = c.entries.any (·.1 == id) := by
  rw [contains, find?, Option.isSome_map, List.isSome_find?]

/-- Registering what has an identity of its own puts it behind everything else. -/
theorem foldl_register {entries : List (Identity × Decoder)}
    (h : ((c.entries ++ entries).map (·.1)).Nodup) :
    entries.foldl (fun c entry => c.register entry.1 entry.2) c = ⟨c.entries ++ entries⟩ := by
  induction entries generalizing c with
  | nil => rw [List.append_nil]; rfl
  | cons entry entries ih =>
    have hnew : c.contains entry.1 = false := by
      rw [contains_eq_any, List.any_eq_false]
      intro old hold
      rw [List.map_append, List.nodup_append] at h
      have hne := h.2.2 old.1 (List.mem_map_of_mem hold) entry.1 (by simp)
      simpa using hne
    have hregister : c.register entry.1 entry.2 = ⟨c.entries ++ [entry]⟩ := by
      rw [register, hnew]
      rfl
    rw [List.append_cons] at h ⊢
    rw [List.foldl_cons, hregister]
    exact ih (c := ⟨c.entries ++ [entry]⟩) h

/-- The standard catalogue is made by registering all kinds of messages one after another. -/
theorem standard_eq_foldl_register :
    standard = (MessageKind.all.map fun kind => (kind.id, Message.decode kind)).foldl
      (fun c entry => c.register entry.1 entry.2) {} := by
  have hnodup : ((([] : List (Identity × Decoder)) ++
      MessageKind.all.map fun kind => (kind.id, Message.decode kind)).map (·.1)).Nodup := by
    rw [List.nil_append, List.map_map]
    exact MessageKind.nodup_ids
  exact (foldl_register (c := {}) hnodup).symm

/-- The standard catalogue knows the kinds of messages and nothing else. -/
theorem find?_standard_eq_some :
    standard.find? id = some decoder ↔ ∃ kind, MessageKind.id kind = id ∧
      decoder = Message.decode kind := by
  constructor
  · intro h
    obtain ⟨entry, hfind, rfl⟩ := Option.map_eq_some_iff.1 h
    obtain ⟨kind, -, rfl⟩ := List.mem_map.1 (List.mem_of_find?_eq_some hfind)
    exact ⟨kind, by simpa using List.find?_some hfind, rfl⟩
  · rintro ⟨kind, rfl, rfl⟩
    cases kind <;> rfl

theorem contains_standard : standard.contains id = true ↔ ∃ kind, MessageKind.id kind = id := by
  rw [contains, Option.isSome_iff_exists]
  constructor
  · rintro ⟨decoder, h⟩
    obtain ⟨kind, hid, -⟩ := find?_standard_eq_some.1 h
    exact ⟨kind, hid⟩
  · rintro ⟨kind, hid⟩
    exact ⟨_, find?_standard_eq_some.2 ⟨kind, hid, rfl⟩⟩

/-- A frame whose identity is that of a kind is decoded as one of that kind. -/
theorem decode_standard {kind : MessageKind} (h : kind.id = f.id) :
    standard.decode f = Message.decode kind f.payload := by
  rw [decode, find?_standard_eq_some.2 ⟨kind, h, rfl⟩]

theorem decode_of_not_contains (h : c.contains f.id = false) :
    c.decode f = .error (.unknownPacket f.id) := by
  rw [contains, Option.isSome_eq_false_iff, Option.isNone_iff_eq_none] at h
  rw [decode, h]

/-- What is decoded has the identity of its frame. -/
theorem id_of_decode_standard {m : Message} (h : standard.decode f = .ok m) : m.id = f.id := by
  cases hcontains : standard.contains f.id with
  | false =>
    rw [decode_of_not_contains hcontains] at h
    cases h
  | true =>
    obtain ⟨kind, hid⟩ := contains_standard.1 hcontains
    rw [decode_standard hid] at h
    rw [Message.id, (Message.of_decode h).1, hid]

/-- A frame that is known only fails to be decoded if it is too short. -/
theorem truncated_of_decode_standard {e : Error} (hcontains : standard.contains f.id = true)
    (h : standard.decode f = .error e) :
    ∃ needed available, e = .truncated needed available ∧ available < needed := by
  obtain ⟨kind, hid⟩ := contains_standard.1 hcontains
  rw [decode_standard hid] at h
  exact Message.truncated_of_decode h

end Catalogue

end BleHost
